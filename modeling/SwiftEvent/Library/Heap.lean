import Mathlib.Order.Basic
import Mathlib.Data.Set.Insert
import Mathlib.Logic.Function.Basic

/-!
# Implicit binary heaps

A binary heap is kept in an array: the children of cell `i` are the cells
`2 * i + 1` and `2 * i + 2`.  The operations move a *hole* along a path and fill
it at the end, so what they keep is a heap with one cell left open.

* `Ordered` — no cell before its parent, for the keys of the first `n` cells.
* `Holed` — the same of the cells around an open one.
* `Rising`, `Sinking` — what is known of the element waiting to fill the hole:
  it may stand above the cells below, or below the cell above.
* `Sits`, `SitsOff` — the array holds a set of elements, each with its position
  written beside it, all cells or all but the hole.

Nothing is assumed of the elements but that their keys are linearly ordered.
-/

namespace ImplicitHeap

universe u v

/-- The cell above; cell `0` has none. -/
def parent (i : Nat) : Nat := (i - 1) / 2

theorem parent_lt {i : Nat} (h : 0 < i) : parent i < i := by
  unfold parent
  omega

theorem parent_le (i : Nat) : parent i ≤ i := by
  unfold parent
  omega

/-- The two children are the only cells with this parent. -/
theorem eq_children {c i : Nat} (hc : 0 < c) (h : parent c = i) :
    c = 2 * i + 1 ∨ c = 2 * i + 2 := by
  unfold parent at h
  omega

/-! ## Order -/

section Order

variable {κ : Type u} [LinearOrder κ]

/-- The first `n` cells are in heap order. -/
def Ordered (key : Nat → κ) (n : Nat) : Prop :=
  ∀ i, 0 < i → i < n → key (parent i) ≤ key i

/-- The cells around the hole are in heap order, and in order across it. -/
structure Holed (key : Nat → κ) (n hole : Nat) : Prop where
  off : ∀ i, 0 < i → i < n → i ≠ hole → parent i ≠ hole → key (parent i) ≤ key i
  bridge : 0 < hole → ∀ c, 0 < c → c < n → parent c = hole →
    key (parent hole) ≤ key c

/-- The element waiting to fill the hole may stand above the cells below. -/
structure Rising (key : Nat → κ) (n hole : Nat) (x : κ) : Prop
    extends Holed key n hole where
  below : ∀ c, 0 < c → c < n → parent c = hole → x ≤ key c

/-- The element waiting to fill the hole may stand below the cell above. -/
structure Sinking (key : Nat → κ) (n hole : Nat) (x : κ) : Prop
    extends Holed key n hole where
  above : 0 < hole → key (parent hole) ≤ x

variable {key : Nat → κ} {n hole : Nat} {x : κ}

/-- The top is a minimum. -/
theorem Ordered.root_le (h : Ordered key n) {i : Nat} (hi : i < n) : key 0 ≤ key i := by
  induction i using Nat.strongRecOn with
  | ind i ih =>
      rcases Nat.eq_zero_or_pos i with rfl | pos
      · exact le_refl _
      · have up := parent_lt pos
        calc key 0 ≤ key (parent i) := ih _ up (lt_trans up hi)
          _ ≤ key i := h i pos hi

theorem Ordered.mono (h : Ordered key n) {m : Nat} (hm : m ≤ n) : Ordered key m := by
  intro i pos hi
  exact h i pos (lt_of_lt_of_le hi hm)

/-- Only the keys of the cells matter. -/
theorem Ordered.congr (h : Ordered key n) {key' : Nat → κ}
    (same : ∀ i < n, key' i = key i) : Ordered key' n := by
  intro i pos hi
  rw [same i hi, same _ (lt_of_le_of_lt (parent_le i) hi)]
  exact h i pos hi

/-- Any cell of a heap may be opened. -/
theorem Ordered.holed (h : Ordered key n) (hole : Nat) : Holed key n hole where
  off i pos hi _ _ := h i pos hi
  bridge pos c hc hn hp := by
    have up := parent_lt hc
    calc key (parent hole) ≤ key hole := h hole pos (by omega)
      _ = key (parent c) := by rw [hp]
      _ ≤ key c := h c hc hn

/-- What is in the hole does not matter. -/
theorem Holed.congr (h : Holed key n hole) {key' : Nat → κ}
    (same : ∀ i < n, i ≠ hole → key' i = key i) : Holed key' n hole where
  off i pos hi ne pne := by
    rw [same i hi ne, same _ (lt_of_le_of_lt (parent_le i) hi) pne]
    exact h.off i pos hi ne pne
  bridge pos c hc hn hp := by
    have up := parent_lt hc
    have up' := parent_lt pos
    rw [same c hn (by omega), same _ (by omega) (by omega)]
    exact h.bridge pos c hc hn hp

/-- A cell past the end is a hole nothing is below. -/
theorem Ordered.rising_end (h : Ordered key n) (x : κ) : Rising key (n + 1) n x where
  off i pos hi ne _ := h i pos (by omega)
  bridge _ c hc hn hp := by
    have up := parent_lt hc
    omega
  below c hc hn hp := by
    have up := parent_lt hc
    omega

/-- An element before the cell above the hole is before the cells below it. -/
theorem Holed.rising (h : Holed key n hole) (pos : 0 < hole) (lt : x < key (parent hole)) :
    Rising key n hole x where
  toHoled := h
  below c hc hn hp := le_trans (le_of_lt lt) (h.bridge pos c hc hn hp)

/-- Otherwise it may stand below that cell. -/
theorem Holed.sinking (h : Holed key n hole) (nlt : 0 < hole → ¬ x < key (parent hole)) :
    Sinking key n hole x where
  toHoled := h
  above pos := not_lt.mp (nlt pos)

/-- The cell above moves down into the hole. -/
theorem Rising.rise (h : Rising key n hole x) (pos : 0 < hole) (hn : hole < n)
    (lt : x < key (parent hole)) :
    Rising (Function.update key hole (key (parent hole))) n (parent hole) x := by
  have up := parent_lt pos
  refine ⟨⟨?_, ?_⟩, ?_⟩
  · intro i ipos hi ne pne
    -- the old hole now holds the key of its parent, which bounds its children
    by_cases hih : i = hole
    · exact absurd (congrArg parent hih) pne
    · rw [Function.update_of_ne hih]
      by_cases hph : parent i = hole
      · rw [hph, Function.update_self]
        exact h.bridge pos i ipos hi hph
      · rw [Function.update_of_ne hph]
        exact h.off i ipos hi hih hph
  · intro pos' c hc hcn hp
    have up' := parent_lt pos'
    have top : key (parent (parent hole)) ≤ key (parent hole) :=
      h.off (parent hole) pos' (by omega) (by omega) (by omega)
    rw [Function.update_of_ne (by omega)]
    by_cases hch : c = hole
    · rw [hch, Function.update_self]
      exact top
    · rw [Function.update_of_ne hch]
      have side := h.off c hc hcn hch (by omega)
      rw [hp] at side
      exact le_trans top side
  · intro c hc hcn hp
    by_cases hch : c = hole
    · rw [hch, Function.update_self]
      exact le_of_lt lt
    · rw [Function.update_of_ne hch]
      have side := h.off c hc hcn hch (by omega)
      rw [hp] at side
      exact le_trans (le_of_lt lt) side

/-- Where nothing above is after it, the rising element fills the hole. -/
theorem Rising.fill (h : Rising key n hole x) (stop : 0 < hole → key (parent hole) ≤ x) :
    Ordered (Function.update key hole x) n := by
  intro i pos hi
  have up := parent_lt pos
  by_cases hih : i = hole
  · subst hih
    rw [Function.update_self, Function.update_of_ne (by omega)]
    exact stop pos
  · rw [Function.update_of_ne hih]
    by_cases hph : parent i = hole
    · rw [hph, Function.update_self]
      exact h.below i pos hi hph
    · rw [Function.update_of_ne hph]
      exact h.off i pos hi hih hph

/-- A least child moves up into the hole. -/
theorem Sinking.sink (h : Sinking key n hole x) {c : Nat} (hc : 0 < c) (hn : c < n)
    (hp : parent c = hole)
    (least : ∀ d, 0 < d → d < n → parent d = hole → key c ≤ key d) (lt : key c < x) :
    Sinking (Function.update key hole (key c)) n c x := by
  have up : hole < c := hp ▸ parent_lt hc
  refine ⟨⟨?_, ?_⟩, ?_⟩
  · intro i pos hi ne pne
    by_cases hih : i = hole
    · subst hih
      have up' := parent_lt pos
      rw [Function.update_self, Function.update_of_ne (by omega)]
      exact h.bridge pos c hc hn hp
    · rw [Function.update_of_ne hih]
      by_cases hph : parent i = hole
      · rw [hph, Function.update_self]
        exact least i pos hi hph
      · rw [Function.update_of_ne hph]
        exact h.off i pos hi hih hph
  · intro _ d hd hdn hdp
    have down := parent_lt hd
    have side := h.off d hd hdn (by omega) (by omega)
    rw [hdp] at side
    rw [hp, Function.update_self, Function.update_of_ne (by omega)]
    exact side
  · intro _
    rw [hp, Function.update_self]
    exact le_of_lt lt

/-- Where nothing below is before it, the sinking element fills the hole. -/
theorem Sinking.fill (h : Sinking key n hole x)
    (stop : ∀ c, 0 < c → c < n → parent c = hole → x ≤ key c) :
    Ordered (Function.update key hole x) n := by
  intro i pos hi
  have up := parent_lt pos
  by_cases hih : i = hole
  · subst hih
    rw [Function.update_self, Function.update_of_ne (by omega)]
    exact h.above pos
  · rw [Function.update_of_ne hih]
    by_cases hph : parent i = hole
    · rw [hph, Function.update_self]
      exact stop i pos hi hph
    · rw [Function.update_of_ne hph]
      exact h.off i pos hi hih hph

end Order

/-! ## Positions -/

section Positions

variable {α : Type v}

/-- The first `n` cells hold the elements of `S`, each knowing its cell. -/
structure Sits (p : Nat → α) (n : Nat) (idx : α → Option Nat) (S : Set α) : Prop where
  mem : ∀ i < n, p i ∈ S
  pos : ∀ i < n, idx (p i) = some i
  has : ∀ x ∈ S, ∃ i < n, p i = x

/-- All of the first `n` cells but the hole hold the elements of `S`. -/
structure SitsOff (p : Nat → α) (n hole : Nat) (idx : α → Option Nat) (S : Set α) :
    Prop where
  mem : ∀ i < n, i ≠ hole → p i ∈ S
  pos : ∀ i < n, i ≠ hole → idx (p i) = some i
  has : ∀ x ∈ S, ∃ i < n, i ≠ hole ∧ p i = x

variable {p : Nat → α} {n hole : Nat} {idx : α → Option Nat} {S : Set α} {e : α}

/-- Different cells hold different elements. -/
theorem Sits.inj (h : Sits p n idx S) {i j : Nat} (hi : i < n) (hj : j < n)
    (eq : p i = p j) : i = j := by
  have hpi := h.pos i hi
  rw [eq, h.pos j hj] at hpi
  exact (Option.some.inj hpi).symm

theorem SitsOff.inj (h : SitsOff p n hole idx S) {i j : Nat} (hi : i < n) (hj : j < n)
    (ihole : i ≠ hole) (jhole : j ≠ hole) (eq : p i = p j) : i = j := by
  have hpi := h.pos i hi ihole
  rw [eq, h.pos j hj jhole] at hpi
  exact (Option.some.inj hpi).symm

/-- Opening a cell takes its element out. -/
theorem Sits.open_cell (h : Sits p n idx S) (hn : hole < n) :
    SitsOff p n hole idx (S \ {p hole}) where
  mem i hi ne := by
    refine ⟨h.mem i hi, ?_⟩
    intro eq
    exact ne (h.inj hi hn eq)
  pos i hi _ := h.pos i hi
  has x hx := by
    obtain ⟨i, hi, rfl⟩ := h.has x hx.1
    refine ⟨i, hi, ?_, rfl⟩
    rintro rfl
    exact hx.2 rfl

/-- The cell past the end is open already. -/
theorem Sits.open_end (h : Sits p n idx S) : SitsOff p (n + 1) n idx S where
  mem i hi ne := h.mem i (by omega)
  pos i hi ne := h.pos i (by omega)
  has x hx := by
    obtain ⟨i, hi, rfl⟩ := h.has x hx
    exact ⟨i, by omega, by omega, rfl⟩

/-- With the last cell dropped, its element is out. -/
theorem Sits.drop_last (h : Sits p (n + 1) idx S) : Sits p n idx (S \ {p n}) where
  mem i hi := by
    refine ⟨h.mem i (by omega), ?_⟩
    intro eq
    exact absurd (h.inj (by omega) (by omega) eq) (by omega)
  pos i hi := h.pos i (by omega)
  has x hx := by
    obtain ⟨i, hi, rfl⟩ := h.has x hx.1
    refine ⟨i, ?_, rfl⟩
    by_contra hlt
    have : i = n := by omega
    subst this
    exact hx.2 rfl

/-- With the last cell dropped, an open cell stays open. -/
theorem SitsOff.drop_last (h : SitsOff p (n + 1) hole idx S) (hn : hole < n) :
    SitsOff p n hole idx (S \ {p n}) where
  mem i hi ne := by
    refine ⟨h.mem i (by omega) ne, ?_⟩
    intro eq
    exact absurd (h.inj (by omega) (by omega) ne (by omega) eq) (by omega)
  pos i hi ne := h.pos i (by omega) ne
  has x hx := by
    obtain ⟨i, hi, ne, rfl⟩ := h.has x hx.1
    refine ⟨i, ?_, ne, rfl⟩
    by_contra hlt
    have : i = n := by omega
    subst this
    exact hx.2 rfl

/-- An element moves into the hole and leaves its own cell open. -/
theorem SitsOff.move [DecidableEq α] (h : SitsOff p n hole idx S) (hn : hole < n)
    {j : Nat} (hj : j < n) (ne : j ≠ hole) :
    SitsOff (Function.update p hole (p j)) n j
      (Function.update idx (p j) (some hole)) S where
  mem i hi inej := by
    by_cases hih : i = hole
    · rw [hih, Function.update_self]
      exact h.mem j hj ne
    · rw [Function.update_of_ne hih]
      exact h.mem i hi hih
  pos i hi inej := by
    by_cases hih : i = hole
    · rw [hih, Function.update_self, Function.update_self]
    · rw [Function.update_of_ne hih]
      have pne : p i ≠ p j := by
        intro eq
        exact inej (h.inj hi hj hih ne eq)
      rw [Function.update_of_ne pne]
      exact h.pos i hi hih
  has x hx := by
    obtain ⟨i, hi, hih, rfl⟩ := h.has x hx
    by_cases hij : i = j
    · exact ⟨hole, hn, ne.symm, by rw [hij, Function.update_self]⟩
    · exact ⟨i, hi, hij, by rw [Function.update_of_ne hih]⟩

/-- An element from outside fills the hole. -/
theorem SitsOff.fill [DecidableEq α] (h : SitsOff p n hole idx S) (hn : hole < n)
    (he : e ∉ S) :
    Sits (Function.update p hole e) n (Function.update idx e (some hole))
      (insert e S) where
  mem i hi := by
    by_cases hih : i = hole
    · rw [hih, Function.update_self]
      exact Set.mem_insert e S
    · rw [Function.update_of_ne hih]
      exact Set.mem_insert_of_mem e (h.mem i hi hih)
  pos i hi := by
    by_cases hih : i = hole
    · rw [hih, Function.update_self, Function.update_self]
    · rw [Function.update_of_ne hih]
      have pne : p i ≠ e := by
        rintro rfl
        exact he (h.mem i hi hih)
      rw [Function.update_of_ne pne]
      exact h.pos i hi hih
  has x hx := by
    rcases Set.mem_insert_iff.mp hx with rfl | hx
    · exact ⟨hole, hn, by rw [Function.update_self]⟩
    · obtain ⟨i, hi, hih, rfl⟩ := h.has x hx
      exact ⟨i, hi, by rw [Function.update_of_ne hih]⟩

/-- Positions written for elements outside do not matter. -/
theorem Sits.congr_idx (h : Sits p n idx S) {idx' : α → Option Nat}
    (same : ∀ x ∈ S, idx' x = idx x) : Sits p n idx' S where
  mem := h.mem
  pos i hi := by rw [same _ (h.mem i hi), h.pos i hi]
  has := h.has

end Positions

end ImplicitHeap
