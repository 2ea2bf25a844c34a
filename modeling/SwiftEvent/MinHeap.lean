import SwiftEvent.Timeval
import SwiftEvent.Library.Heap
import Mathlib.Data.Set.Card

/-!
# `minheap-internal.h`: the heap of timers

`struct min_heap` is an array of pointers to events with its fill `n` and its
allocation `a`; every event carries its place in the array, `min_heap_idx`.  The
functions of the header are given here with their loops, their unsigned
arithmetic and their accesses to the array: an access past the allocation is the
result `none`, and so is a loop that does not end within the cells it may visit.

The deadlines `ev_timeout` belong to the events, not to the heap, so each
function is handed them.

* `Holds` — the array is a heap of exactly the events of a set, each with its
  place.  Every operation keeps it, for the set the operation is meant to leave.
* `minHeapPush_spec`, `minHeapPop_spec`, `minHeapErase_spec`,
  `minHeapAdjust_spec` — one statement for each operation; none of them leaves
  the allocation.

What bounds the heap is the index `2 * (hole_index + 1)` of a child, which must
not wrap: the statements are about heaps of fewer than `2^31` events.
-/

namespace SwiftEvent

/-- The order of `evutil_timercmp`. -/
instance : LinearOrder Timeval where
  le := (· ≤ ·)
  lt := (· < ·)
  le_refl t := by simp [Timeval.le_def]
  le_trans _ _ _ := Timeval.le_trans
  lt_iff_le_not_ge t u := by
    rw [Timeval.not_le]
    constructor
    · intro h
      refine ⟨?_, h⟩
      rw [Timeval.lt_def] at h
      rw [Timeval.le_def]
      split_ifs at * <;> omega
    · exact fun h => h.2
  le_antisymm t u h h' := by
    rcases t with ⟨s, m⟩
    rcases u with ⟨s', m'⟩
    rw [Timeval.le_def] at h h'
    simp only at h h'
    rw [Timeval.mk.injEq]
    split_ifs at * <;> omega
  le_total t u := by
    rw [Timeval.le_def, Timeval.le_def]
    split_ifs <;> omega
  toDecidableLE := Timeval.decidableLe
  toDecidableLT := Timeval.decidableLt

/-- `i - 1` on `unsigned`. -/
def unsignedPred (i : Nat) : Nat := (i + 4294967295) % 4294967296

theorem unsignedPred_of_pos {i : Nat} (pos : 0 < i) (lt : i < 4294967296) :
    unsignedPred i = i - 1 := by
  unfold unsignedPred
  omega

/-- `struct min_heap`, with the `min_heap_idx` of every event; `none` is `-1`.
Only the first `a` cells of `p` are memory. -/
structure MinHeap (α : Type) where
  p : Nat → α
  n : Nat
  a : Nat
  minHeapIdx : α → Option Nat

namespace MinHeap

section Functions

variable {α : Type} [DecidableEq α] (evTimeout : α → Timeval) (s : MinHeap α)

/-- `min_heap_elem_greater(a, b)`. -/
def minHeapElemGreater (a b : α) : Bool := decide (evTimeout b < evTimeout a)

/-- `s->p[i]`; `none` is an access past the allocation. -/
def cell (i : Nat) : Option α := if i < s.a then some (s.p i) else none

/-- The heap with `e` in cell `i`, and `i` written in `e`. -/
def placed (i : Nat) (e : α) : MinHeap α :=
  { s with p := Function.update s.p i e
           minHeapIdx := Function.update s.minHeapIdx e (some i) }

/-- `(s->p[i] = e)->ev_timeout_pos.min_heap_idx = i`. -/
def put (i : Nat) (e : α) : Option (MinHeap α) :=
  if i < s.a then some (s.placed i e) else none

/-- `e->ev_timeout_pos.min_heap_idx = -1`. -/
def clearIdx (e : α) : MinHeap α :=
  { s with minHeapIdx := Function.update s.minHeapIdx e none }

/-- `min_heap_ctor_` and `min_heap_elem_init_`; what the array will hold before
it is written is up to the allocator. -/
def minHeapCtor (p : Nat → α) : MinHeap α := ⟨p, 0, 0, fun _ => none⟩

/-- `min_heap_empty_`. -/
def minHeapEmpty : Bool := s.n == 0

/-- `min_heap_top_`; `none` is the null pointer. -/
def minHeapTop : Option α := if s.n ≠ 0 then s.cell 0 else none

/-- `min_heap_reserve_`; `realloc` says whether `mm_realloc` finds memory. -/
def minHeapReserve (realloc : Bool) (n : Nat) : Bool × MinHeap α :=
  if s.a < n then
    let a := if s.a ≠ 0 then s.a * 2 % 4294967296 else 8
    let a := if a < n then n else a
    if realloc then (true, { s with a := a }) else (false, s)
  else (true, s)

/-- The loop of `min_heap_shift_up_`. -/
def shiftUpLoop (e : α) : Nat → MinHeap α → Nat → Option (MinHeap α)
  | 0, _, _ => none
  | fuel + 1, s, hole =>
      if hole = 0 then s.put hole e
      else do
        let parent := unsignedPred hole / 2
        let q ← s.cell parent
        if minHeapElemGreater evTimeout q e then
          let s ← s.put hole q
          shiftUpLoop e fuel s parent
        else s.put hole e

/-- `min_heap_shift_up_`. -/
def minHeapShiftUp (hole : Nat) (e : α) : Option (MinHeap α) :=
  shiftUpLoop evTimeout e (hole + 1) s hole

/-- `min_heap_shift_up_unconditional_`: the first move is made untested. -/
def minHeapShiftUpUnconditional (hole : Nat) (e : α) : Option (MinHeap α) := do
  let parent := unsignedPred hole / 2
  let q ← s.cell parent
  let s ← s.put hole q
  shiftUpLoop evTimeout e (parent + 1) s parent

/-- The smaller child that `min_heap_shift_down_` compares with. -/
def minChild (minChild : Nat) : Option Nat :=
  if minChild = s.n then some (unsignedPred minChild)
  else do
    let r ← s.cell minChild
    let l ← s.cell (unsignedPred minChild)
    return if minHeapElemGreater evTimeout r l then unsignedPred minChild else minChild

/-- The loop of `min_heap_shift_down_`. -/
def shiftDownLoop (e : α) : Nat → MinHeap α → Nat → Option (MinHeap α)
  | 0, _, _ => none
  | fuel + 1, s, hole =>
      let next := 2 * (hole + 1) % 4294967296
      if next ≤ s.n then do
        let child ← s.minChild evTimeout next
        let q ← s.cell child
        if minHeapElemGreater evTimeout e q then
          let s ← s.put hole q
          shiftDownLoop e fuel s child
        else s.put hole e
      else s.put hole e

/-- `min_heap_shift_down_`. -/
def minHeapShiftDown (hole : Nat) (e : α) : Option (MinHeap α) :=
  shiftDownLoop evTimeout e (s.n + 1) s hole

/-- `min_heap_push_`; `true` is the result `0`. -/
def minHeapPush (realloc : Bool) (e : α) : Option (Bool × MinHeap α) :=
  if s.n = 4294967295 then some (false, s)
  else
    match s.minHeapReserve realloc (s.n + 1) with
    | (false, s) => some (false, s)
    | (true, s) => do
        let s ← minHeapShiftUp evTimeout { s with n := s.n + 1 } s.n e
        return (true, s)

/-- `min_heap_pop_`. -/
def minHeapPop : Option (Option α × MinHeap α) :=
  if s.n ≠ 0 then do
    let e ← s.cell 0
    let last ← s.cell (s.n - 1)
    let s ← minHeapShiftDown evTimeout { s with n := s.n - 1 } 0 last
    return (some e, s.clearIdx e)
  else some (none, s)

/-- The end that `min_heap_erase_` and `min_heap_adjust_` share: the hole is
filled by an element that may have to move either way. -/
def shiftEither (hole : Nat) (e : α) : Option (MinHeap α) := do
  let up ←
    if 0 < hole then do
      let q ← s.cell ((hole - 1) / 2)
      pure (minHeapElemGreater evTimeout q e)
    else pure false
  if up then s.minHeapShiftUpUnconditional evTimeout hole e
  else s.minHeapShiftDown evTimeout hole e

/-- `min_heap_erase_`. -/
def minHeapErase (e : α) : Option (Bool × MinHeap α) :=
  match s.minHeapIdx e with
  | some hole => do
      let last ← s.cell (s.n - 1)
      let s ← shiftEither evTimeout { s with n := s.n - 1 } hole last
      return (true, s.clearIdx e)
  | none => some (false, s)

/-- `min_heap_adjust_`. -/
def minHeapAdjust (realloc : Bool) (e : α) : Option (Bool × MinHeap α) :=
  match s.minHeapIdx e with
  | some hole => do
      let s ← s.shiftEither evTimeout hole e
      return (true, s)
  | none => s.minHeapPush evTimeout realloc e

end Functions

/-! ## What the loops leave -/

open ImplicitHeap

variable {α : Type} {evTimeout : α → Timeval} {s : MinHeap α} {S : Set α} {e : α}

/-- The heap is an array of exactly the events of `S`, in heap order, each with
its place written in it. -/
structure Holds (evTimeout : α → Timeval) (s : MinHeap α) (S : Set α) : Prop where
  fits : s.n ≤ s.a
  small : s.n < 2147483648
  sits : Sits s.p s.n s.minHeapIdx S
  off : ∀ x ∉ S, s.minHeapIdx x = none
  ordered : Ordered (evTimeout ∘ s.p) s.n

/-- What a loop leaves when the element it was given has filled the hole. -/
structure Filled (evTimeout : α → Timeval) (s s' : MinHeap α) (S : Set α) : Prop where
  n : s'.n = s.n
  a : s'.a = s.a
  sits : Sits s'.p s.n s'.minHeapIdx S
  ordered : Ordered (evTimeout ∘ s'.p) s.n
  idx : ∀ x ∉ S, s'.minHeapIdx x = s.minHeapIdx x

theorem cell_of_lt {i : Nat} (h : i < s.a) : s.cell i = some (s.p i) := by
  simp [cell, h]

theorem minHeapElemGreater_eq {a b : α} :
    minHeapElemGreater evTimeout a b = true ↔ evTimeout b < evTimeout a := by
  simp [minHeapElemGreater]

/-- The child that is compared with is the smaller one. -/
theorem minChild_spec (evTimeout : α → Timeval) {hole : Nat} (fits : s.n ≤ s.a)
    (small : s.n < 2147483648) (le : 2 * (hole + 1) ≤ s.n) :
    ∃ c, s.minChild evTimeout (2 * (hole + 1)) = some c ∧ 0 < c ∧ c < s.n ∧
      parent c = hole ∧
      ∀ d, 0 < d → d < s.n → parent d = hole → evTimeout (s.p c) ≤ evTimeout (s.p d) := by
  have left : parent (2 * hole + 1) = hole := by
    unfold parent
    omega
  have right : parent (2 * hole + 2) = hole := by
    unfold parent
    omega
  have pred : unsignedPred (2 * (hole + 1)) = 2 * hole + 1 := by
    rw [unsignedPred_of_pos (by omega) (by omega)]
    omega
  unfold minChild
  by_cases last : 2 * (hole + 1) = s.n
  · -- only the left child is in the heap
    rw [if_pos last, pred]
    refine ⟨_, rfl, by omega, by omega, left, ?_⟩
    intro d pos lt hd
    rcases eq_children pos hd with rfl | rfl
    · exact le_refl _
    · omega
  rw [if_neg last, pred]
  simp only [cell_of_lt (show 2 * (hole + 1) < s.a by omega),
    cell_of_lt (show 2 * hole + 1 < s.a by omega), Option.bind_eq_bind, Option.bind_some,
    Option.pure_def]
  refine ⟨_, rfl, ?_⟩
  by_cases greater : evTimeout (s.p (2 * hole + 1)) < evTimeout (s.p (2 * (hole + 1)))
  · rw [if_pos (minHeapElemGreater_eq.mpr greater)]
    refine ⟨by omega, by omega, left, ?_⟩
    intro d pos lt hd
    rcases eq_children pos hd with rfl | rfl
    · exact le_refl _
    · exact le_of_lt greater
  · rw [if_neg (mt minHeapElemGreater_eq.mp greater)]
    refine ⟨by omega, by omega, right, ?_⟩
    intro d pos lt hd
    rcases eq_children pos hd with rfl | rfl
    · exact not_lt.mp greater
    · exact le_refl _

/-- A loop that filled the last open cell leaves a heap. -/
theorem Filled.holds {s s' : MinHeap α} (h : Filled evTimeout s s' S) (fits : s.n ≤ s.a)
    (small : s.n < 2147483648) (off : ∀ x ∉ S, s.minHeapIdx x = none) :
    Holds evTimeout s' S where
  fits := by rw [h.n, h.a]; exact fits
  small := by rw [h.n]; exact small
  sits := by rw [h.n]; exact h.sits
  off x hx := by rw [h.idx x hx, off x hx]
  ordered := by rw [h.n]; exact h.ordered

/-- `min_heap_size_` is the number of events. -/
theorem Holds.size (h : Holds evTimeout s S) : S.ncard = s.n ∧ S.Finite := by
  have eq : S = s.p '' (Finset.range s.n : Set Nat) := by
    ext x
    constructor
    · intro hx
      obtain ⟨i, hi, rfl⟩ := h.sits.has x hx
      exact ⟨i, Finset.mem_coe.mpr (Finset.mem_range.mpr hi), rfl⟩
    · rintro ⟨i, hi, rfl⟩
      exact h.sits.mem i (Finset.mem_range.mp (Finset.mem_coe.mp hi))
  constructor
  · rw [eq, Set.InjOn.ncard_image, Set.ncard_coe_finset, Finset.card_range]
    intro i hi j hj same
    exact h.sits.inj (Finset.mem_range.mp (Finset.mem_coe.mp hi))
      (Finset.mem_range.mp (Finset.mem_coe.mp hj)) same
  · rw [eq]
    exact (Finset.finite_toSet _).image _

/-- Deadlines of events that are not in the heap may change. -/
theorem Holds.congr (h : Holds evTimeout s S) {evTimeout' : α → Timeval}
    (same : ∀ x ∈ S, evTimeout' x = evTimeout x) : Holds evTimeout' s S where
  fits := h.fits
  small := h.small
  sits := h.sits
  off := h.off
  ordered := h.ordered.congr fun i hi => same _ (h.sits.mem i hi)

/-- A larger allocation is as good. -/
theorem Holds.reserve (h : Holds evTimeout s S) {a : Nat} (le : s.a ≤ a) :
    Holds evTimeout { s with a := a } S where
  fits := le_trans h.fits le
  small := h.small
  sits := h.sits
  off := h.off
  ordered := h.ordered

/-- `min_heap_top_` is an event no other is due before. -/
theorem Holds.top (h : Holds evTimeout s S) :
    match s.minHeapTop with
    | some e => e ∈ S ∧ ∀ x ∈ S, evTimeout e ≤ evTimeout x
    | none => S = ∅ := by
  have fits := h.fits
  unfold minHeapTop
  by_cases empty : s.n = 0
  · rw [if_neg (by omega)]
    show S = ∅
    ext x
    rw [Set.mem_empty_iff_false, iff_false]
    intro hx
    obtain ⟨i, hi, -⟩ := h.sits.has x hx
    omega
  · rw [if_pos empty, cell_of_lt (by omega)]
    refine ⟨h.sits.mem 0 (by omega), ?_⟩
    intro x hx
    obtain ⟨i, hi, rfl⟩ := h.sits.has x hx
    exact h.ordered.root_le hi

/-- Removing the last event of the heap leaves the others where they are. -/
theorem Holds.drop_last (h : Holds evTimeout s S) (pos : 0 < s.n) :
    Sits s.p (s.n - 1) s.minHeapIdx (S \ {s.p (s.n - 1)}) := by
  have sits := h.sits
  rw [show s.n = s.n - 1 + 1 by omega] at sits
  exact sits.drop_last

/-- The empty heap holds nothing. -/
theorem holds_ctor (evTimeout : α → Timeval) (p : Nat → α) :
    Holds evTimeout (minHeapCtor p) ∅ where
  fits := Nat.le_refl 0
  small := (by decide : 0 < 2147483648)
  sits := ⟨by intro i hi; exact absurd hi (Nat.not_lt_zero i),
    by intro i hi; exact absurd hi (Nat.not_lt_zero i), by intro x hx; exact hx.elim⟩
  off _ _ := rfl
  ordered := by
    intro i _ hi
    exact absurd hi (Nat.not_lt_zero i)

/-- What is known when an event is taken out of the middle: its cell is open,
and the last event waits to fill it. -/
theorem Holds.opened (h : Holds evTimeout s S) {hole : Nat} (lt : hole < s.n - 1) :
    SitsOff s.p (s.n - 1) hole s.minHeapIdx ((S \ {s.p hole}) \ {s.p (s.n - 1)}) ∧
      Holed (evTimeout ∘ s.p) (s.n - 1) hole ∧
      insert (s.p (s.n - 1)) ((S \ {s.p hole}) \ {s.p (s.n - 1)}) = S \ {s.p hole} := by
  refine ⟨?_, (h.ordered.mono (Nat.sub_le s.n 1)).holed hole, ?_⟩
  · have off := h.sits.open_cell (show hole < s.n by omega)
    rw [show s.n = s.n - 1 + 1 by omega] at off
    exact off.drop_last lt
  · rw [Set.insert_sdiff_singleton, Set.insert_eq_of_mem]
    refine ⟨h.sits.mem _ (by omega), ?_⟩
    intro eq
    exact absurd (h.sits.inj (by omega) (by omega) eq) (by omega)

/-- `min_heap_reserve_` changes the allocation only, or nothing. -/
theorem minHeapReserve_cases (s : MinHeap α) (realloc : Bool) (n : Nat) :
    (∃ a, s.minHeapReserve realloc n = (true, { s with a := a }) ∧ s.a ≤ a ∧ n ≤ a) ∨
      s.minHeapReserve realloc n = (false, s) ∧ realloc = false ∧ s.a < n := by
  unfold minHeapReserve
  by_cases grow : s.a < n
  swap
  · left
    rw [if_neg grow]
    exact ⟨s.a, rfl, le_refl _, not_lt.mp grow⟩
  rw [if_pos grow]
  cases realloc with
  | true =>
      left
      refine ⟨_, rfl, ?_⟩
      split_ifs <;> omega
  | false =>
      right
      exact ⟨rfl, rfl, grow⟩

variable [DecidableEq α]

theorem put_of_lt {i : Nat} (h : i < s.a) (e : α) : s.put i e = some (s.placed i e) := by
  simp [put, h]

/-- The element that fills the hole completes the array. -/
theorem Filled.of_put {hole : Nat} (off : SitsOff s.p s.n hole s.minHeapIdx S) (he : e ∉ S)
    (hn : hole < s.n)
    (ordered : Ordered (Function.update (evTimeout ∘ s.p) hole (evTimeout e)) s.n) :
    Filled evTimeout s (s.placed hole e) (insert e S) where
  n := rfl
  a := rfl
  sits := off.fill hn he
  ordered := by
    show Ordered (evTimeout ∘ Function.update s.p hole e) s.n
    rw [Function.comp_update]
    exact ordered
  idx x hx := by
    show Function.update s.minHeapIdx e (some hole) x = s.minHeapIdx x
    rw [Function.update_of_ne]
    rintro rfl
    exact hx (Set.mem_insert x S)

/-- A move into the hole does not touch what is outside. -/
theorem Filled.of_move {q : α} {hole : Nat} {s' : MinHeap α} (hq : q ∈ S)
    (h : Filled evTimeout (s.placed hole q) s' (insert e S)) :
    Filled evTimeout s s' (insert e S) where
  n := h.n
  a := h.a
  sits := h.sits
  ordered := h.ordered
  idx x hx := by
    rw [h.idx x hx]
    show Function.update s.minHeapIdx q (some hole) x = s.minHeapIdx x
    rw [Function.update_of_ne]
    rintro rfl
    exact hx (Set.mem_insert_of_mem e hq)

/-- `min_heap_shift_up_` stays in the array, ends, and fills the hole. -/
theorem shiftUpLoop_spec (fuel : Nat) : ∀ (s : MinHeap α) (hole : Nat), hole < fuel →
    hole < s.n → s.n ≤ s.a → s.n < 2147483648 →
    SitsOff s.p s.n hole s.minHeapIdx S → e ∉ S →
    Rising (evTimeout ∘ s.p) s.n hole (evTimeout e) →
    ∃ s', shiftUpLoop evTimeout e fuel s hole = some s' ∧
      Filled evTimeout s s' (insert e S) := by
  induction fuel with
  | zero =>
      intro s hole lt
      omega
  | succ fuel ih =>
      intro s hole lt hn fits small off he rising
      unfold shiftUpLoop
      by_cases h0 : hole = 0
      · rw [if_pos h0, put_of_lt (by omega)]
        refine ⟨_, rfl, Filled.of_put off he hn (rising.fill ?_)⟩
        intro pos
        omega
      have pos : 0 < hole := by omega
      have up := parent_lt pos
      have eq : unsignedPred hole / 2 = parent hole := by
        rw [unsignedPred_of_pos pos (by omega)]
        rfl
      rw [if_neg h0]
      simp only [eq, cell_of_lt (show parent hole < s.a by omega), Option.bind_eq_bind,
        Option.bind_some]
      by_cases greater : evTimeout e < evTimeout (s.p (parent hole))
      · -- the parent moves down, and the hole is where it was
        rw [if_pos (minHeapElemGreater_eq.mpr greater), put_of_lt (by omega), Option.bind_some]
        have rising' := rising.rise pos hn greater
        have off' := off.move hn (show parent hole < s.n by omega) (by omega)
        rw [show (evTimeout ∘ s.p) (parent hole) = evTimeout (s.p (parent hole)) from rfl,
          ← Function.comp_update] at rising'
        obtain ⟨s', run, filled⟩ := ih (s.placed hole (s.p (parent hole))) (parent hole)
          (by omega) (show parent hole < s.n by omega) fits small off' he rising'
        exact ⟨s', run, filled.of_move (off.mem (parent hole) (by omega) (by omega))⟩
      · rw [if_neg (mt minHeapElemGreater_eq.mp greater), put_of_lt (by omega)]
        exact ⟨_, rfl, Filled.of_put off he hn (rising.fill fun _ => not_lt.mp greater)⟩

/-- `min_heap_shift_down_` stays in the array, ends, and fills the hole. -/
theorem shiftDownLoop_spec (fuel : Nat) : ∀ (s : MinHeap α) (hole : Nat), s.n < hole + fuel →
    hole < s.n → s.n ≤ s.a → s.n < 2147483648 →
    SitsOff s.p s.n hole s.minHeapIdx S → e ∉ S →
    Sinking (evTimeout ∘ s.p) s.n hole (evTimeout e) →
    ∃ s', shiftDownLoop evTimeout e fuel s hole = some s' ∧
      Filled evTimeout s s' (insert e S) := by
  induction fuel with
  | zero =>
      intro s hole lt hn
      omega
  | succ fuel ih =>
      intro s hole lt hn fits small off he sinking
      unfold shiftDownLoop
      have next : 2 * (hole + 1) % 4294967296 = 2 * (hole + 1) := by omega
      simp only [next]
      by_cases le : 2 * (hole + 1) ≤ s.n
      swap
      · rw [if_neg le, put_of_lt (by omega)]
        refine ⟨_, rfl, Filled.of_put off he hn (sinking.fill ?_)⟩
        -- both children are past the end
        intro c pos hc hp
        rcases eq_children pos hp with rfl | rfl <;> omega
      obtain ⟨c, found, cpos, hc, hp, least⟩ :=
        minChild_spec evTimeout fits small le
      have down : hole < c := hp ▸ parent_lt cpos
      rw [if_pos le]
      simp only [found, cell_of_lt (show c < s.a by omega), Option.bind_eq_bind,
        Option.bind_some]
      by_cases greater : evTimeout (s.p c) < evTimeout e
      · rw [if_pos (minHeapElemGreater_eq.mpr greater), put_of_lt (by omega), Option.bind_some]
        have sinking' := sinking.sink cpos hc hp least greater
        have off' := off.move hn hc (by omega)
        rw [show (evTimeout ∘ s.p) c = evTimeout (s.p c) from rfl,
          ← Function.comp_update] at sinking'
        obtain ⟨s', run, filled⟩ := ih (s.placed hole (s.p c)) c
          (show s.n < c + fuel by omega) hc fits small off' he sinking'
        exact ⟨s', run, filled.of_move (off.mem c hc (by omega))⟩
      · rw [if_neg (mt minHeapElemGreater_eq.mp greater), put_of_lt (by omega)]
        refine ⟨_, rfl, Filled.of_put off he hn (sinking.fill ?_)⟩
        intro d pos hd hdp
        exact le_trans (not_lt.mp greater) (least d pos hd hdp)

/-- `min_heap_shift_up_unconditional_` is called where the move is right. -/
theorem minHeapShiftUpUnconditional_spec {hole : Nat} (hn : hole < s.n) (fits : s.n ≤ s.a)
    (small : s.n < 2147483648) (off : SitsOff s.p s.n hole s.minHeapIdx S) (he : e ∉ S)
    (rising : Rising (evTimeout ∘ s.p) s.n hole (evTimeout e)) (pos : 0 < hole)
    (greater : evTimeout e < evTimeout (s.p (parent hole))) :
    ∃ s', s.minHeapShiftUpUnconditional evTimeout hole e = some s' ∧
      Filled evTimeout s s' (insert e S) := by
  have up := parent_lt pos
  have eq : unsignedPred hole / 2 = parent hole := by
    rw [unsignedPred_of_pos pos (by omega)]
    rfl
  unfold minHeapShiftUpUnconditional
  simp only [eq, cell_of_lt (show parent hole < s.a by omega), put_of_lt (show hole < s.a by omega),
    Option.bind_eq_bind, Option.bind_some]
  have rising' := rising.rise pos hn greater
  have off' := off.move hn (show parent hole < s.n by omega) (by omega)
  rw [show (evTimeout ∘ s.p) (parent hole) = evTimeout (s.p (parent hole)) from rfl,
    ← Function.comp_update] at rising'
  obtain ⟨s', run, filled⟩ := shiftUpLoop_spec (parent hole + 1)
    (s.placed hole (s.p (parent hole))) (parent hole) (by omega)
    (show parent hole < s.n by omega) fits small off' he rising'
  exact ⟨s', run, filled.of_move (off.mem (parent hole) (by omega) (by omega))⟩

/-- Whichever way the element has to go, it fills the hole. -/
theorem shiftEither_spec {hole : Nat} (hn : hole < s.n) (fits : s.n ≤ s.a)
    (small : s.n < 2147483648) (off : SitsOff s.p s.n hole s.minHeapIdx S) (he : e ∉ S)
    (holed : Holed (evTimeout ∘ s.p) s.n hole) :
    ∃ s', s.shiftEither evTimeout hole e = some s' ∧ Filled evTimeout s s' (insert e S) := by
  have down (nlt : 0 < hole → ¬ evTimeout e < evTimeout (s.p (parent hole))) :=
    shiftDownLoop_spec (s.n + 1) s hole (by omega) hn fits small off he (holed.sinking nlt)
  unfold shiftEither
  by_cases pos : 0 < hole
  swap
  · simp only [if_neg pos, Option.pure_def, Option.bind_eq_bind, Option.bind_some,
      Bool.false_eq_true, if_false]
    exact down fun pos' => absurd pos' pos
  have up := parent_lt pos
  have found : s.cell ((hole - 1) / 2) = some (s.p (parent hole)) :=
    cell_of_lt (show parent hole < s.a by omega)
  simp only [if_pos pos, found, Option.pure_def, Option.bind_eq_bind, Option.bind_some]
  by_cases greater : evTimeout e < evTimeout (s.p (parent hole))
  · rw [if_pos (minHeapElemGreater_eq.mpr greater)]
    exact minHeapShiftUpUnconditional_spec hn fits small off he (holed.rising pos greater)
      pos greater
  · rw [if_neg (mt minHeapElemGreater_eq.mp greater)]
    exact down fun _ => greater

/-! ## What the operations leave -/

/-- `min_heap_push_` adds the event; without memory it changes nothing. -/
theorem minHeapPush_spec (h : Holds evTimeout s S) (he : e ∉ S) (room : s.n + 1 < 2147483648)
    (realloc : Bool) :
    ∃ ok s', s.minHeapPush evTimeout realloc e = some (ok, s') ∧
      if ok then Holds evTimeout s' (insert e S)
      else s' = s ∧ realloc = false ∧ s.a < s.n + 1 := by
  have fits := h.fits
  unfold minHeapPush
  rw [if_neg (show ¬ s.n = 4294967295 by omega)]
  rcases minHeapReserve_cases s realloc (s.n + 1) with ⟨a, eq, grows, enough⟩ | ⟨eq, no, lt⟩
  swap
  · rw [eq]
    exact ⟨false, s, rfl, rfl, no, lt⟩
  rw [eq]
  obtain ⟨s', run, filled⟩ := shiftUpLoop_spec (s.n + 1) { s with n := s.n + 1, a := a } s.n
    (Nat.lt_succ_self s.n) (Nat.lt_succ_self s.n) enough room h.sits.open_end he
    (h.ordered.rising_end (evTimeout e))
  refine ⟨true, s', ?_, ?_⟩
  · show (minHeapShiftUp evTimeout { s with n := s.n + 1, a := a } s.n e).bind _ = _
    unfold minHeapShiftUp
    rw [run]
    rfl
  · refine filled.holds enough room ?_
    intro x hx
    exact h.off x fun mem => hx (Set.mem_insert_of_mem e mem)

/-- Once the last event has filled the hole, the erased event's place is cleared. -/
theorem Holds.erased (h : Holds evTimeout s S) {hole : Nat} {s' : MinHeap α}
    (filled : Filled evTimeout { s with n := s.n - 1 } s' (S \ {s.p hole})) :
    Holds evTimeout (s'.clearIdx (s.p hole)) (S \ {s.p hole}) where
  fits := by
    show s'.n ≤ s'.a
    rw [filled.n, filled.a]
    exact le_trans (Nat.sub_le s.n 1) h.fits
  small := by
    show s'.n < 2147483648
    rw [filled.n]
    exact lt_of_le_of_lt (Nat.sub_le s.n 1) h.small
  sits := by
    show Sits s'.p s'.n (Function.update s'.minHeapIdx (s.p hole) none) _
    rw [filled.n]
    refine filled.sits.congr_idx ?_
    intro x hx
    rw [Function.update_of_ne hx.2]
  off x hx := by
    show Function.update s'.minHeapIdx (s.p hole) none x = none
    by_cases eq : x = s.p hole
    · rw [eq, Function.update_self]
    · rw [Function.update_of_ne eq, filled.idx x hx]
      exact h.off x fun mem => hx ⟨mem, eq⟩
  ordered := by
    show Ordered (evTimeout ∘ s'.p) s'.n
    rw [filled.n]
    exact filled.ordered

/-- The last event is put back in its own cell, which the heap no longer counts. -/
theorem Holds.erased_last (h : Holds evTimeout s S) (pos : 0 < s.n) :
    minHeapShiftDown evTimeout { s with n := s.n - 1 } (s.n - 1) (s.p (s.n - 1)) =
        some ({ s with n := s.n - 1 }.placed (s.n - 1) (s.p (s.n - 1))) ∧
      Holds evTimeout
        (({ s with n := s.n - 1 }.placed (s.n - 1) (s.p (s.n - 1))).clearIdx
          (s.p (s.n - 1)))
        (S \ {s.p (s.n - 1)}) := by
  have fits := h.fits
  have small := h.small
  refine ⟨?_, ?_, ?_, ?_, ?_, ?_⟩
  · unfold minHeapShiftDown shiftDownLoop
    have past : ¬ 2 * (s.n - 1 + 1) % 4294967296 ≤ s.n - 1 := by omega
    simp only [if_neg past]
    exact put_of_lt (s := { s with n := s.n - 1 }) (show s.n - 1 < s.a by omega) _
  · show s.n - 1 ≤ s.a
    omega
  · show s.n - 1 < 2147483648
    omega
  · show Sits (Function.update s.p (s.n - 1) (s.p (s.n - 1))) (s.n - 1) _ _
    rw [Function.update_eq_self]
    refine (h.drop_last pos).congr_idx ?_
    intro x hx
    show Function.update (Function.update s.minHeapIdx _ _) _ none x = s.minHeapIdx x
    rw [Function.update_of_ne hx.2, Function.update_of_ne hx.2]
  · intro x hx
    show Function.update (Function.update s.minHeapIdx _ _) _ none x = none
    by_cases eq : x = s.p (s.n - 1)
    · rw [eq, Function.update_self]
    · rw [Function.update_of_ne eq, Function.update_of_ne eq]
      exact h.off x fun mem => hx ⟨mem, eq⟩
  · show Ordered (evTimeout ∘ Function.update s.p (s.n - 1) (s.p (s.n - 1))) (s.n - 1)
    rw [Function.update_eq_self]
    exact h.ordered.mono (Nat.sub_le s.n 1)

/-- `min_heap_pop_` takes out an event no other is due before. -/
theorem minHeapPop_spec (h : Holds evTimeout s S) :
    (s.n = 0 ∧ s.minHeapPop evTimeout = some (none, s)) ∨
      ∃ e s', s.minHeapTop = some e ∧ s.minHeapPop evTimeout = some (some e, s') ∧
        Holds evTimeout s' (S \ {e}) := by
  have fits := h.fits
  have small := h.small
  by_cases empty : s.n = 0
  · left
    refine ⟨empty, ?_⟩
    unfold minHeapPop
    rw [if_neg (by omega)]
  right
  have top : s.minHeapTop = some (s.p 0) := by
    unfold minHeapTop
    rw [if_pos empty, cell_of_lt (by omega)]
  have pop (s' : MinHeap α) (run : minHeapShiftDown evTimeout { s with n := s.n - 1 } 0
      (s.p (s.n - 1)) = some s') :
      s.minHeapPop evTimeout = some (some (s.p 0), s'.clearIdx (s.p 0)) := by
    unfold minHeapPop
    simp only [if_pos empty, cell_of_lt (show 0 < s.a by omega),
      cell_of_lt (show s.n - 1 < s.a by omega), run, Option.bind_eq_bind, Option.bind_some,
      Option.pure_def]
  by_cases single : s.n - 1 = 0
  · -- the popped event is the last one
    obtain ⟨run, holds⟩ := h.erased_last (by omega)
    rw [single] at run holds
    exact ⟨_, _, top, pop _ (by rw [single]; exact run), holds⟩
  · obtain ⟨off, holed, eq⟩ := h.opened (show 0 < s.n - 1 by omega)
    obtain ⟨s', run, filled⟩ := shiftDownLoop_spec (s.n - 1 + 1) { s with n := s.n - 1 } 0
      (show s.n - 1 < 0 + (s.n - 1 + 1) by omega) (show 0 < s.n - 1 by omega)
      (show s.n - 1 ≤ s.a by omega) (show s.n - 1 < 2147483648 by omega) off
      (show s.p (s.n - 1) ∉ _ from fun mem => mem.2 rfl)
      (holed.sinking fun pos => absurd pos (Nat.lt_irrefl 0))
    rw [eq] at filled
    exact ⟨_, _, top, pop s' run, h.erased filled⟩

/-- `min_heap_erase_` takes out the event, wherever it is. -/
theorem minHeapErase_spec (h : Holds evTimeout s S) (e : α) :
    (e ∉ S ∧ s.minHeapErase evTimeout e = some (false, s)) ∨
      e ∈ S ∧ ∃ s', s.minHeapErase evTimeout e = some (true, s') ∧
        Holds evTimeout s' (S \ {e}) ∧ s'.a = s.a := by
  have fits := h.fits
  have small := h.small
  unfold minHeapErase
  by_cases he : e ∈ S
  swap
  · left
    rw [h.off e he]
    exact ⟨he, rfl⟩
  right
  refine ⟨he, ?_⟩
  obtain ⟨hole, lt, rfl⟩ := h.sits.has e he
  rw [h.sits.pos hole lt]
  have finish (s' : MinHeap α)
      (run : shiftEither evTimeout { s with n := s.n - 1 } hole (s.p (s.n - 1)) = some s') :
      ((s.cell (s.n - 1)).bind fun last =>
          (shiftEither evTimeout { s with n := s.n - 1 } hole last).bind fun t =>
            some (true, t.clearIdx (s.p hole))) =
        some (true, s'.clearIdx (s.p hole)) := by
    rw [cell_of_lt (show s.n - 1 < s.a by omega), Option.bind_some, run, Option.bind_some]
  by_cases last : hole = s.n - 1
  · subst last
    obtain ⟨run, holds⟩ := h.erased_last (by omega)
    refine ⟨_, finish _ ?_, holds, rfl⟩
    -- its parent is not greater, so the event is shifted down, past the end
    unfold shiftEither
    by_cases pos : 0 < s.n - 1
    · have up := parent_lt pos
      have found : cell { s with n := s.n - 1 } ((s.n - 1 - 1) / 2) =
          some (s.p (parent (s.n - 1))) :=
        cell_of_lt (show parent (s.n - 1) < s.a by omega)
      have ordered : evTimeout (s.p (parent (s.n - 1))) ≤ evTimeout (s.p (s.n - 1)) :=
        h.ordered (s.n - 1) pos lt
      simp only [if_pos pos, found, Option.pure_def, Option.bind_eq_bind, Option.bind_some]
      rw [if_neg (mt minHeapElemGreater_eq.mp (not_lt.mpr ordered))]
      exact run
    · simp only [if_neg pos, Option.pure_def, Option.bind_eq_bind, Option.bind_some,
        Bool.false_eq_true, if_false]
      exact run
  · obtain ⟨off, holed, eq⟩ := h.opened (show hole < s.n - 1 by omega)
    obtain ⟨s', run, filled⟩ := shiftEither_spec (s := { s with n := s.n - 1 })
      (show hole < s.n - 1 by omega) (show s.n - 1 ≤ s.a by omega)
      (show s.n - 1 < 2147483648 by omega) off (show s.p (s.n - 1) ∉ _ from fun mem => mem.2 rfl)
      holed
    rw [eq] at filled
    exact ⟨_, finish s' run, h.erased filled, filled.a⟩

/-- `min_heap_adjust_` restores the heap after one deadline has changed. -/
theorem minHeapAdjust_spec {evTimeout' : α → Timeval} (h : Holds evTimeout s S)
    (he : e ∈ S) (same : ∀ x, x ≠ e → evTimeout' x = evTimeout x) (realloc : Bool) :
    ∃ s', s.minHeapAdjust evTimeout' realloc e = some (true, s') ∧ Holds evTimeout' s' S := by
  obtain ⟨hole, lt, rfl⟩ := h.sits.has e he
  have holed : Holed (evTimeout' ∘ s.p) s.n hole := by
    refine (h.ordered.holed hole).congr ?_
    intro i hi ne
    exact same (s.p i) fun eq => ne (h.sits.inj hi lt eq)
  obtain ⟨s', run, filled⟩ := shiftEither_spec lt h.fits h.small (h.sits.open_cell lt)
    (fun mem => mem.2 rfl) holed
  have eq : insert (s.p hole) (S \ {s.p hole}) = S := by
    rw [Set.insert_sdiff_singleton, Set.insert_eq_of_mem he]
  rw [eq] at filled
  refine ⟨s', ?_, filled.holds h.fits h.small h.off⟩
  unfold minHeapAdjust
  rw [h.sits.pos hole lt]
  show (s.shiftEither evTimeout' hole (s.p hole)).bind _ = _
  rw [run]
  rfl

/-! ## What the heap is for -/

/-- A call of the header, with the deadline the caller gives the event first. -/
inductive Op (α : Type)
  | adjust (e : α) (deadline : Timeval) (realloc : Bool)
  | erase (e : α)
  | pop

/-- What the calls return. -/
inductive Reply (α : Type)
  | result (ok : Bool)
  | event (e : Option α)

/-- The heap and the deadlines of the events. -/
structure Timers (α : Type) where
  heap : MinHeap α
  evTimeout : α → Timeval

/-- The call on the array. -/
def Op.call : Op α → Timers α → Option (Reply α × Timers α)
  | .adjust e deadline realloc, t => do
      let evTimeout := Function.update t.evTimeout e deadline
      let (ok, heap) ← t.heap.minHeapAdjust evTimeout realloc e
      return (.result ok, ⟨heap, evTimeout⟩)
  | .erase e, t => do
      let (ok, heap) ← t.heap.minHeapErase t.evTimeout e
      return (.result ok, { t with heap := heap })
  | .pop, t => do
      let (e, heap) ← t.heap.minHeapPop t.evTimeout
      return (.event e, { t with heap := heap })

/-- The calls one after the other, with what they return. -/
def calls : Timers α → List (Op α) → Option (List (Reply α) × Timers α)
  | t, [] => some ([], t)
  | t, op :: ops => do
      let (reply, t) ← op.call t
      let (replies, t) ← calls t ops
      return (reply :: replies, t)

/-- The purpose of the heap: the pending events with their deadlines. -/
abbrev Pending (α : Type) := α → Option Timeval

/-- What a call is meant to return, and to leave pending. -/
def Op.Means : Op α → Pending α → Reply α → Pending α → Prop
  | .adjust e deadline realloc, q, .result ok, q' =>
      if ok then q' = Function.update q e (some deadline)
      else q e = none ∧ realloc = false ∧ q' = q
  | .erase e, q, .result ok, q' =>
      ok = (q e).isSome ∧ q' = Function.update q e none
  | .pop, q, .event (some e), q' =>
      ∃ d, q e = some d ∧ (∀ x d', q x = some d' → d ≤ d') ∧ q' = Function.update q e none
  | .pop, q, .event none, q' => (∀ x, q x = none) ∧ q' = q
  | _, _, _, _ => False

/-- What a sequence of calls is meant to return, and to leave pending. -/
def Mean : List (Op α) → Pending α → List (Reply α) → Pending α → Prop
  | [], q, [], q' => q' = q
  | op :: ops, q, reply :: replies, q' =>
      ∃ p, op.Means q reply p ∧ Mean ops p replies q'
  | _, _, _, _ => False

omit [DecidableEq α] in
/-- The events in the array are the pending ones. -/
def pending (s : MinHeap α) (evTimeout : α → Timeval) : Pending α := fun e =>
  if (s.minHeapIdx e).isSome then some (evTimeout e) else none

omit [DecidableEq α] in
theorem Holds.pending_of_mem (h : Holds evTimeout s S) (he : e ∈ S) :
    s.pending evTimeout e = some (evTimeout e) := by
  obtain ⟨i, hi, rfl⟩ := h.sits.has e he
  simp [pending, h.sits.pos i hi]

omit [DecidableEq α] in
theorem Holds.pending_of_notMem (h : Holds evTimeout s S) (he : e ∉ S) :
    s.pending evTimeout e = none := by
  simp [pending, h.off e he]

/-- An event put in, or moved, is pending with its new deadline. -/
theorem Holds.pending_insert {evTimeout' : α → Timeval} {s' : MinHeap α}
    (h : Holds evTimeout s S) (after : Holds evTimeout' s' (insert e S))
    (same : ∀ x, x ≠ e → evTimeout' x = evTimeout x) :
    s'.pending evTimeout' = Function.update (s.pending evTimeout) e (some (evTimeout' e)) := by
  funext x
  by_cases eq : x = e
  · rw [eq, after.pending_of_mem (Set.mem_insert e S), Function.update_self]
  · rw [Function.update_of_ne eq]
    by_cases hx : x ∈ S
    · rw [after.pending_of_mem (Set.mem_insert_of_mem e hx), h.pending_of_mem hx, same x eq]
    · rw [after.pending_of_notMem (by simp [eq, hx]), h.pending_of_notMem hx]

/-- An event taken out is no longer pending. -/
theorem Holds.pending_sdiff {s' : MinHeap α} (h : Holds evTimeout s S)
    (after : Holds evTimeout s' (S \ {e})) :
    s'.pending evTimeout = Function.update (s.pending evTimeout) e none := by
  funext x
  by_cases eq : x = e
  · rw [eq, after.pending_of_notMem (by simp), Function.update_self]
  · rw [Function.update_of_ne eq]
    by_cases hx : x ∈ S
    · rw [after.pending_of_mem ⟨hx, eq⟩, h.pending_of_mem hx]
    · rw [after.pending_of_notMem (fun mem => hx mem.1), h.pending_of_notMem hx]

/-- The deadline of an event that is not pending may be set. -/
theorem Holds.set_deadline (h : Holds evTimeout s S) (he : e ∉ S) (deadline : Timeval) :
    Holds (Function.update evTimeout e deadline) s S ∧
      s.pending (Function.update evTimeout e deadline) = s.pending evTimeout := by
  have h' : Holds (Function.update evTimeout e deadline) s S := by
    refine h.congr ?_
    intro x hx
    rw [Function.update_of_ne]
    rintro rfl
    exact he hx
  refine ⟨h', ?_⟩
  funext x
  by_cases eq : x = e
  · rw [eq, h.pending_of_notMem he, h'.pending_of_notMem he]
  · unfold pending
    rw [Function.update_of_ne eq]

/-- `min_heap_adjust_` with a new deadline, whether or not the event is pending. -/
theorem Op.adjust_spec {t : Timers α} (h : Holds t.evTimeout t.heap S)
    (room : t.heap.n + 1 < 2147483648) (e : α) (deadline : Timeval) (realloc : Bool) :
    ∃ reply t' S', (Op.adjust e deadline realloc).call t = some (reply, t') ∧
      (Op.adjust e deadline realloc).Means (t.heap.pending t.evTimeout) reply
        (t'.heap.pending t'.evTimeout) ∧
      Holds t'.evTimeout t'.heap S' ∧ ∃ e, S' ⊆ insert e S := by
  have same (x : α) (ne : x ≠ e) : Function.update t.evTimeout e deadline x = t.evTimeout x :=
    Function.update_of_ne ne _ _
  by_cases he : e ∈ S
  · obtain ⟨heap, run, holds⟩ := minHeapAdjust_spec h he same realloc
    refine ⟨.result true, ⟨heap, _⟩, S, ?_, ?_, holds, e, Set.subset_insert e S⟩
    · show (t.heap.minHeapAdjust _ realloc e).bind _ = _
      rw [run]
      rfl
    · rw [← Set.insert_eq_of_mem he] at holds
      have eq := h.pending_insert holds same
      rw [Function.update_self] at eq
      exact eq
  · -- an event that is not in the heap is pushed
    obtain ⟨h', kept⟩ := h.set_deadline he deadline
    obtain ⟨ok, heap, run, after⟩ := minHeapPush_spec h' he room realloc
    have call : (Op.adjust e deadline realloc).call t =
        some (.result ok, ⟨heap, Function.update t.evTimeout e deadline⟩) := by
      show (t.heap.minHeapAdjust _ realloc e).bind _ = _
      unfold minHeapAdjust
      rw [h.off e he]
      show (t.heap.minHeapPush _ realloc e).bind _ = _
      rw [run]
      rfl
    cases ok with
    | true =>
        refine ⟨_, _, insert e S, call, ?_, after, e, subset_refl _⟩
        have eq := h.pending_insert after same
        rw [Function.update_self] at eq
        exact eq
    | false =>
        obtain ⟨rfl, no, -⟩ := after
        exact ⟨_, _, S, call, ⟨h.pending_of_notMem he, no, kept⟩, h', e, Set.subset_insert e S⟩

/-- `min_heap_erase_`, whether or not the event is pending. -/
theorem Op.erase_spec {t : Timers α} (h : Holds t.evTimeout t.heap S) (e : α) :
    ∃ reply t' S', (Op.erase e).call t = some (reply, t') ∧
      (Op.erase e).Means (t.heap.pending t.evTimeout) reply (t'.heap.pending t'.evTimeout) ∧
      Holds t'.evTimeout t'.heap S' ∧ ∃ e, S' ⊆ insert e S := by
  rcases minHeapErase_spec h e with ⟨he, run⟩ | ⟨he, heap, run, holds, -⟩
  · refine ⟨.result false, t, S, ?_, ⟨?_, ?_⟩, h, e, Set.subset_insert e S⟩
    · show (t.heap.minHeapErase t.evTimeout e).bind _ = _
      rw [run]
      rfl
    · rw [h.pending_of_notMem he]
      rfl
    · rw [← h.pending_of_notMem he, Function.update_eq_self]
  · refine ⟨.result true, ⟨heap, t.evTimeout⟩, S \ {e}, ?_, ⟨?_, h.pending_sdiff holds⟩, holds, e,
      fun x hx => Set.mem_insert_of_mem e hx.1⟩
    · show (t.heap.minHeapErase t.evTimeout e).bind _ = _
      rw [run]
      rfl
    · rw [h.pending_of_mem he]
      rfl

/-- `min_heap_pop_`, whether or not anything is pending. -/
theorem Op.pop_spec {t : Timers α} (h : Holds t.evTimeout t.heap S) :
    ∃ reply t' S', Op.pop.call t = some (reply, t') ∧
      Op.pop.Means (t.heap.pending t.evTimeout) reply (t'.heap.pending t'.evTimeout) ∧
      Holds t'.evTimeout t'.heap S' ∧ S' ⊆ S := by
  have least := h.top
  rcases minHeapPop_spec h with ⟨empty, run⟩ | ⟨e, heap, top, run, holds⟩
  · have null : t.heap.minHeapTop = none := by
      unfold minHeapTop
      rw [if_neg (by omega)]
    rw [null] at least
    refine ⟨.event none, t, S, ?_, ⟨?_, rfl⟩, h, subset_refl S⟩
    · show (t.heap.minHeapPop t.evTimeout).bind _ = _
      rw [run]
      rfl
    · intro x
      refine h.pending_of_notMem ?_
      rw [show S = ∅ from least]
      exact Set.notMem_empty x
  · rw [top] at least
    obtain ⟨he, least⟩ := least
    refine ⟨.event (some e), ⟨heap, t.evTimeout⟩, S \ {e}, ?_, ⟨t.evTimeout e,
      h.pending_of_mem he, ?_, h.pending_sdiff holds⟩, holds, fun x hx => hx.1⟩
    · show (t.heap.minHeapPop t.evTimeout).bind _ = _
      rw [run]
      rfl
    · intro x d hd
      by_cases hx : x ∈ S
      · rw [h.pending_of_mem hx] at hd
        cases hd
        exact least x hx
      · rw [h.pending_of_notMem hx] at hd
        exact absurd hd (by simp)

/-- A call on a heap answers as it is meant to, and leaves a heap. -/
theorem Op.call_spec {t : Timers α} (h : Holds t.evTimeout t.heap S)
    (room : t.heap.n + 1 < 2147483648) (op : Op α) :
    ∃ reply t' S', op.call t = some (reply, t') ∧
      op.Means (t.heap.pending t.evTimeout) reply (t'.heap.pending t'.evTimeout) ∧
      Holds t'.evTimeout t'.heap S' ∧ t'.heap.n ≤ t.heap.n + 1 := by
  have size := h.size
  have grown {S' : Set α} {t' : Timers α} (h' : Holds t'.evTimeout t'.heap S') {e : α}
      (sub : S' ⊆ insert e S) : t'.heap.n ≤ t.heap.n + 1 := by
    calc t'.heap.n = S'.ncard := h'.size.1.symm
      _ ≤ (insert e S).ncard := Set.ncard_le_ncard sub (size.2.insert e)
      _ ≤ S.ncard + 1 := Set.ncard_insert_le e S
      _ = t.heap.n + 1 := by rw [size.1]
  cases op with
  | adjust e deadline realloc =>
      obtain ⟨reply, t', S', call, means, holds, x, sub⟩ := adjust_spec h room e deadline realloc
      exact ⟨reply, t', S', call, means, holds, grown holds sub⟩
  | erase e =>
      obtain ⟨reply, t', S', call, means, holds, x, sub⟩ := erase_spec h e
      exact ⟨reply, t', S', call, means, holds, grown holds sub⟩
  | pop =>
      obtain ⟨reply, t', S', call, means, holds, sub⟩ := pop_spec h
      have le := Set.ncard_le_ncard sub size.2
      rw [holds.size.1, size.1] at le
      exact ⟨reply, t', S', call, means, holds, by omega⟩

/-- The step of the run below, from any heap. -/
theorem calls_spec (ops : List (Op α)) : ∀ {t : Timers α} {S : Set α},
    Holds t.evTimeout t.heap S → t.heap.n + ops.length < 2147483648 →
    ∃ replies t' S', calls t ops = some (replies, t') ∧
      Mean ops (t.heap.pending t.evTimeout) replies (t'.heap.pending t'.evTimeout) ∧
      Holds t'.evTimeout t'.heap S' := by
  induction ops with
  | nil =>
      intro t S h _
      exact ⟨[], t, S, rfl, rfl, h⟩
  | cons op ops ih =>
      intro t S h room
      rw [List.length_cons] at room
      obtain ⟨reply, t', S', call, means, h', grown⟩ := op.call_spec h (by omega)
      obtain ⟨replies, t'', S'', run, mean, h''⟩ := ih h' (by omega)
      refine ⟨reply :: replies, t'', S'', ?_, ⟨_, means, mean⟩, h''⟩
      show (op.call t).bind _ = _
      rw [call]
      show (calls t' ops).bind _ = _
      rw [run]
      rfl

/-- **The heap of timers is a priority queue.**  Every sequence of calls from
the empty heap stays in the allocated array and ends; each call returns what it
is meant to, a popped event being one no other is due before; and the array ends
as a heap of exactly the pending events, each with its place. -/
theorem min_heap_is_priority_queue (p : Nat → α) (evTimeout : α → Timeval) (ops : List (Op α))
    (few : ops.length < 2147483648) :
    ∃ replies t, calls ⟨minHeapCtor p, evTimeout⟩ ops = some (replies, t) ∧
      Mean ops (fun _ => none) replies (t.heap.pending t.evTimeout) ∧
      Holds t.evTimeout t.heap {e | t.heap.pending t.evTimeout e ≠ none} := by
  have start := holds_ctor evTimeout p
  have empty : (minHeapCtor p).pending evTimeout = fun _ => none := by
    funext e
    exact start.pending_of_notMem (Set.notMem_empty e)
  obtain ⟨replies, t, S, run, mean, holds⟩ := calls_spec ops
    (t := ⟨minHeapCtor p, evTimeout⟩) start (by show 0 + ops.length < _; omega)
  have same : S = {e | t.heap.pending t.evTimeout e ≠ none} := by
    ext e
    by_cases he : e ∈ S
    · simp [he, holds.pending_of_mem he]
    · simp [he, holds.pending_of_notMem he]
  refine ⟨replies, t, run, ?_, same ▸ holds⟩
  rw [← empty]
  exact mean

/-- Three timers armed, one moved, one erased, and the rest popped. -/
theorem min_heap_five_calls :
    ([Op.adjust 1 ⟨5, 0⟩ true, .adjust 2 ⟨3, 0⟩ true, .adjust 1 ⟨1, 0⟩ true, .erase 2, .pop] :
        List (Op Nat)).length < 2147483648 ∧
      ∃ replies t, calls ⟨minHeapCtor (fun _ => 0), fun _ => ⟨0, 0⟩⟩
        ([.adjust 1 ⟨5, 0⟩ true, .adjust 2 ⟨3, 0⟩ true, .adjust 1 ⟨1, 0⟩ true, .erase 2, .pop] :
          List (Op Nat)) = some (replies, t) ∧
        Mean ([.adjust 1 ⟨5, 0⟩ true, .adjust 2 ⟨3, 0⟩ true, .adjust 1 ⟨1, 0⟩ true, .erase 2,
          .pop] : List (Op Nat)) (fun _ => none) replies (t.heap.pending t.evTimeout) ∧
        Holds t.evTimeout t.heap {e | t.heap.pending t.evTimeout e ≠ none} :=
  ⟨by decide, min_heap_is_priority_queue (fun _ => 0) (fun _ => ⟨0, 0⟩) _ (by decide)⟩

end MinHeap

end SwiftEvent
