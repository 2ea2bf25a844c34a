import Mathlib.Data.Option.Basic
import Mathlib.Data.List.Basic
import Mathlib.Order.OrderIsoNat

/-!
# Runs of a partial step function

A labelled system is given here by a partial step function `σ → α → Option σ`:
`none` says that the label is not enabled in the state.  Nothing else about the
system is assumed, so the rules below serve any program whose steps can be
written down as such a function.

* `run` — the state a list of labels leads to, when every label is enabled.
* `Meets` — every label of a run satisfies a condition on the state *before* its
  step.  Conditional safety statements are made over runs that meet one.
* `Reachable` — the states some run leads to.
* `collect` — what the steps of a run yield, with its invariant rule `history_run`.
* `invariant_run`, `invariant_run_of_meets`, `Reachable.invariant` — the
  induction rules: a property that one step keeps is kept by a run.
* `run_project` — a run of one system is, through a function on states, a run of
  another, when each of its steps is one step of the other or none.
* `run_related` — two runs with the same labels, through a relation on states.
* `run_matched` — two runs that show the same labels, and differ in those that
  they do not show.
* `run_lockstep`, `run_total` — runs that never get stuck.
* `run_simulates` — such a run as one of a relation, through a function on states.
* `finitely_many_of_rank` — the ranking rule for runs that never end.
-/

namespace StepSystem

universe u v w x

variable {σ : Type u} {α : Type v} {τ : Type w} {β : Type x}

/-- The state the labels lead to; `none` as soon as one of them is not enabled. -/
def run (step : σ → α → Option σ) : σ → List α → Option σ
  | s, [] => some s
  | s, a :: as => (step s a).bind fun t => run step t as

@[simp] theorem run_nil (step : σ → α → Option σ) (s : σ) :
    run step s [] = some s := rfl

theorem run_cons (step : σ → α → Option σ) (s : σ) (a : α) (as : List α) :
    run step s (a :: as) = (step s a).bind fun t => run step t as := rfl

/-- A run splits into its first step and the rest. -/
theorem run_cons_eq_some {step : σ → α → Option σ} {s u : σ} {a : α}
    {as : List α} :
    run step s (a :: as) = some u ↔
      ∃ t, step s a = some t ∧ run step t as = some u := by
  rw [run_cons, Option.bind_eq_some_iff]

/-- Runs compose. -/
theorem run_append (step : σ → α → Option σ) (s : σ) (as bs : List α) :
    run step s (as ++ bs) = (run step s as).bind fun t => run step t bs := by
  induction as generalizing s with
  | nil => rfl
  | cons a as ih =>
      rw [List.cons_append, run_cons, run_cons, Option.bind_assoc]
      exact Option.bind_congr fun t _ => ih t

theorem run_append_eq_some {step : σ → α → Option σ} {s u : σ}
    {as bs : List α} :
    run step s (as ++ bs) = some u ↔
      ∃ t, run step s as = some t ∧ run step t bs = some u := by
  rw [run_append, Option.bind_eq_some_iff]

/-- Every label of the run satisfies `C` in the state it is taken from. -/
def Meets (step : σ → α → Option σ) (C : σ → α → Prop) : σ → List α → Prop
  | _, [] => True
  | s, a :: as => C s a ∧ ∀ t, step s a = some t → Meets step C t as

instance decidableMeets (step : σ → α → Option σ) (C : σ → α → Prop)
    [∀ s a, Decidable (C s a)] : ∀ s as, Decidable (Meets step C s as)
  | _, [] => isTrue trivial
  | s, a :: as =>
      match h : step s a with
      | none =>
          decidable_of_iff (C s a)
            ⟨fun ok => ⟨ok, fun t ht => absurd (h.symm.trans ht) (Option.some_ne_none t).symm⟩,
              fun ok => ok.1⟩
      | some t =>
          have := decidableMeets step C t as
          decidable_of_iff (C s a ∧ Meets step C t as)
            ⟨fun ok => ⟨ok.1, fun _ hu => Option.some.inj (h.symm.trans hu) ▸ ok.2⟩,
              fun ok => ⟨ok.1, ok.2 t h⟩⟩

/-- A condition may be replaced by one that it implies for the labels of the run. -/
theorem Meets.imp {step : σ → α → Option σ} {C D : σ → α → Prop} {s : σ} {as : List α}
    (h : Meets step C s as) (imp : ∀ s, ∀ a ∈ as, C s a → D s a) : Meets step D s as := by
  induction as generalizing s with
  | nil => trivial
  | cons a as ih =>
      refine ⟨imp s a List.mem_cons_self h.1, fun t ht => ?_⟩
      exact ih (h.2 t ht) fun s b mem => imp s b (List.mem_cons_of_mem a mem)

/-- It need not imply it where an invariant does not hold. -/
theorem Meets.imp_of_invariant {step : σ → α → Option σ} {C D : σ → α → Prop} {P : σ → Prop}
    (keep : ∀ s a t, P s → step s a = some t → P t) (imp : ∀ s a, P s → C s a → D s a) {s : σ}
    {as : List α} (start : P s) (h : Meets step C s as) : Meets step D s as := by
  induction as generalizing s with
  | nil => trivial
  | cons a as ih => exact ⟨imp s a start h.1, fun t ht => ih (keep s a t start ht) (h.2 t ht)⟩

theorem Meets.and {step : σ → α → Option σ} {C D : σ → α → Prop} {s : σ} {as : List α}
    (h : Meets step C s as) (h' : Meets step D s as) :
    Meets step (fun s a => C s a ∧ D s a) s as := by
  induction as generalizing s with
  | nil => trivial
  | cons a as ih => exact ⟨⟨h.1, h'.1⟩, fun t ht => ih (h.2 t ht) (h'.2 t ht)⟩

theorem Meets.append_left {step : σ → α → Option σ} {C : σ → α → Prop}
    {s : σ} {as bs : List α} (h : Meets step C s (as ++ bs)) :
    Meets step C s as := by
  induction as generalizing s with
  | nil => trivial
  | cons a as ih => exact ⟨h.1, fun t ht => ih (h.2 t ht)⟩

theorem Meets.append_right {step : σ → α → Option σ} {C : σ → α → Prop}
    {s t : σ} {as bs : List α} (h : Meets step C s (as ++ bs)) (run : run step s as = some t) :
    Meets step C t bs := by
  induction as generalizing s with
  | nil => cases run; exact h
  | cons a as ih =>
      obtain ⟨u, hu, run⟩ := run_cons_eq_some.mp run
      exact ih (h.2 u hu) run

/-- **The invariant rule.**  What every enabled step keeps, every run keeps. -/
theorem invariant_run {step : σ → α → Option σ} {P : σ → Prop}
    (keep : ∀ s a t, P s → step s a = some t → P t) {s t : σ} {as : List α}
    (start : P s) (h : run step s as = some t) : P t := by
  induction as generalizing s with
  | nil => cases h; exact start
  | cons a as ih =>
      obtain ⟨u, hu, h⟩ := run_cons_eq_some.mp h
      exact ih (keep s a u start hu) h

/-- **The conditional invariant rule.**  What every enabled step *that meets a
condition* keeps, every run whose steps all meet it keeps. -/
theorem invariant_run_of_meets {step : σ → α → Option σ} {C : σ → α → Prop}
    {P : σ → Prop} (keep : ∀ s a t, P s → C s a → step s a = some t → P t)
    {s t : σ} {as : List α} (start : P s) (meets : Meets step C s as)
    (h : run step s as = some t) : P t := by
  induction as generalizing s with
  | nil => cases h; exact start
  | cons a as ih =>
      obtain ⟨u, hu, h⟩ := run_cons_eq_some.mp h
      exact ih (keep s a u start meets.1 hu) (meets.2 u hu) h

/-- What holds before every step, and in the end, holds after every step. -/
theorem Meets.after {step : σ → α → Option σ} {P : σ → Prop} {s t : σ} {as : List α}
    (h : Meets step (fun s _ => P s) s as) (hs : run step s as = some t) (last : P t) :
    Meets step (fun s a => ∀ u, step s a = some u → P u) s as := by
  induction as generalizing s with
  | nil => trivial
  | cons a as ih =>
      obtain ⟨u, hu, rest⟩ := run_cons_eq_some.mp hs
      have later := h.2 u hu
      have next : P u := by
        cases as with
        | nil =>
            cases rest
            exact last
        | cons b as => exact later.1
      refine ⟨fun v hv => ?_, fun v hv => ?_⟩
      all_goals
        rw [hu] at hv
        cases hv
      · exact next
      · exact ih later rest

/-- What holds in the end, and before a step when it holds after it, holds all along. -/
theorem Meets.of_last {step : σ → α → Option σ} {P Q : σ → Prop}
    (keep : ∀ s a t, Q s → step s a = some t → Q t ∧ (P t → P s)) {s t : σ} {as : List α}
    (start : Q s) (hs : run step s as = some t) (last : P t) :
    P s ∧ Meets step (fun s _ => P s) s as := by
  induction as generalizing s with
  | nil =>
      cases hs
      exact ⟨last, trivial⟩
  | cons a as ih =>
      obtain ⟨u, hu, rest⟩ := run_cons_eq_some.mp hs
      obtain ⟨kept, back⟩ := keep s a u start hu
      obtain ⟨next, later⟩ := ih kept rest
      refine ⟨back next, back next, fun v hv => ?_⟩
      rw [hu] at hv
      cases hv
      exact later

/-- A condition on the labels alone. -/
theorem Meets.of_forall {step : σ → α → Option σ} {C : α → Prop} {as : List α}
    (h : ∀ a ∈ as, C a) (s : σ) : Meets step (fun _ a => C a) s as := by
  induction as generalizing s with
  | nil => trivial
  | cons a as ih =>
      exact ⟨h a List.mem_cons_self, fun t _ =>
        ih (fun b mem => h b (List.mem_cons_of_mem a mem)) t⟩

/-- **The lockstep rule.**  Where related states can always take a step that meets a condition,
both of them, and are related afterwards, two runs over the same steps never get stuck. -/
theorem run_lockstep (step : σ → α → Option σ) (step' : τ → α → Option τ) (R : σ → τ → Prop)
    {C : σ → α → Prop} (keep : ∀ s t a, R s t → C s a →
      ∃ s' t', step s a = some s' ∧ step' t a = some t' ∧ R s' t')
    {s : σ} {t : τ} (start : R s t) (as : List α) (meets : Meets step C s as) :
    ∃ s' t', run step s as = some s' ∧ run step' t as = some t' ∧ R s' t' := by
  induction as generalizing s t with
  | nil => exact ⟨s, t, rfl, rfl, start⟩
  | cons a as ih =>
      obtain ⟨s', t', hs, ht, related⟩ := keep s t a start meets.1
      obtain ⟨u, v, run, run', related'⟩ := ih related (meets.2 s' hs)
      exact ⟨u, v, run_cons_eq_some.mpr ⟨s', hs, run⟩, run_cons_eq_some.mpr ⟨t', ht, run'⟩,
        related'⟩

/-- **The progress rule.**  Where every step that meets a condition can be taken and keeps an
invariant, every run of such steps goes through and keeps it. -/
theorem run_total {step : σ → α → Option σ} {C : σ → α → Prop} {P : σ → Prop}
    (keep : ∀ s a, P s → C s a → ∃ s', step s a = some s' ∧ P s') {s : σ} (start : P s)
    (as : List α) (meets : Meets step C s as) : ∃ s', run step s as = some s' ∧ P s' := by
  have both : ∀ (s : σ) (t : Unit) a, P s → C s a →
      ∃ s' t', step s a = some s' ∧ some () = some t' ∧ P s' := by
    intro s _ a h ok
    obtain ⟨s', hs, h'⟩ := keep s a h ok
    exact ⟨s', (), hs, rfl, h'⟩
  obtain ⟨s', -, go, -, ok⟩ :=
    run_lockstep step (fun _ _ => some ()) (fun s _ => P s) both (t := ()) start as meets
  exact ⟨s', go, ok⟩

/-- A run of steps that are given by a relation. -/
def Runs (rel : τ → α → τ → Prop) : τ → List α → τ → Prop
  | t, [], t' => t' = t
  | t, a :: as, t' => ∃ u, rel t a u ∧ Runs rel u as t'

/-- **The simulation rule.**  Where every step that meets a condition can be taken, keeps an
invariant, and looks like a step of a relation, every run of such steps goes through and looks
like a run of it. -/
theorem run_simulates {step : σ → α → Option σ} {C : σ → α → Prop} {P : σ → Prop} (view : σ → τ)
    {rel : τ → α → τ → Prop}
    (keep : ∀ s a, P s → C s a → ∃ s', step s a = some s' ∧ P s' ∧ rel (view s) a (view s'))
    {s : σ} (start : P s) (as : List α) (meets : Meets step C s as) :
    ∃ s', run step s as = some s' ∧ P s' ∧ Runs rel (view s) as (view s') := by
  induction as generalizing s with
  | nil => exact ⟨s, rfl, start, rfl⟩
  | cons a as ih =>
      obtain ⟨t, ht, kept, related⟩ := keep s a start meets.1
      obtain ⟨s', go, ok, runs⟩ := ih kept (meets.2 t ht)
      exact ⟨s', run_cons_eq_some.mpr ⟨t, ht, go⟩, ok, view t, related, runs⟩

/-- What the steps of a run yield, one after the other. -/
def collect (step : σ → α → Option σ) (yields : σ → α → List β) : σ → List α → List β
  | _, [] => []
  | s, a :: as => yields s a ++ (step s a).elim [] fun t => collect step yields t as

/-- **The invariant rule with a history.**  What every enabled step keeps, of the state and of
what has been yielded so far, every run keeps. -/
theorem history_run {step : σ → α → Option σ} {C : σ → α → Prop} {yields : σ → α → List β}
    {P : σ → List β → Prop}
    (keep : ∀ s a t h, P s h → C s a → step s a = some t → P t (h ++ yields s a))
    {s t : σ} {as : List α} {h : List β} (start : P s h) (meets : Meets step C s as)
    (run : run step s as = some t) : P t (h ++ collect step yields s as) := by
  induction as generalizing s h with
  | nil =>
      cases run
      rw [collect, List.append_nil]
      exact start
  | cons a as ih =>
      obtain ⟨u, hu, run⟩ := run_cons_eq_some.mp run
      rw [collect, hu, Option.elim_some, ← List.append_assoc]
      exact ih (keep s a u h start meets.1 hu) (meets.2 u hu) run

/-- Some run from `s` leads to `t`. -/
def Reachable (step : σ → α → Option σ) (s t : σ) : Prop :=
  ∃ as, run step s as = some t

namespace Reachable

variable {step : σ → α → Option σ} {s t u : σ}

theorem refl (step : σ → α → Option σ) (s : σ) : Reachable step s s := ⟨[], rfl⟩

theorem tail (h : Reachable step s t) {a : α} (hu : step t a = some u) :
    Reachable step s u := by
  obtain ⟨as, h⟩ := h
  exact ⟨as ++ [a], run_append_eq_some.mpr ⟨t, h, by simp [run, hu]⟩⟩

theorem trans (h : Reachable step s t) (h' : Reachable step t u) :
    Reachable step s u := by
  obtain ⟨as, h⟩ := h
  obtain ⟨bs, h'⟩ := h'
  exact ⟨as ++ bs, run_append_eq_some.mpr ⟨t, h, h'⟩⟩

theorem invariant {P : σ → Prop}
    (keep : ∀ s a t, P s → step s a = some t → P t) (start : P s)
    (h : Reachable step s t) : P t := by
  obtain ⟨as, h⟩ := h
  exact invariant_run keep start h

end Reachable

/-- **Stuttering projection.**  If each step of one system is, through `f`, one
step of another or no step at all, its runs are runs of the other. -/
theorem run_project {step : σ → α → Option σ} {step' : τ → β → Option τ}
    (f : σ → τ)
    (project : ∀ s a t, step s a = some t →
      f t = f s ∨ ∃ b, step' (f s) b = some (f t))
    {s t : σ} {as : List α} (h : run step s as = some t) :
    Reachable step' (f s) (f t) := by
  induction as generalizing s with
  | nil => cases h; exact Reachable.refl _ _
  | cons a as ih =>
      obtain ⟨u, hu, h⟩ := run_cons_eq_some.mp h
      rcases project s a u hu with same | ⟨b, hb⟩
      · rw [← same]; exact ih h
      · exact ((Reachable.refl step' (f s)).tail hb).trans (ih h)

/-- Two ends of runs that are related are related in any weaker way. -/
theorem rel_imp {R R' : σ → τ → Prop} (imp : ∀ {s t}, R s t → R' s t) {s : Option σ}
    {t : Option τ} (h : Option.Rel R s t) : Option.Rel R' s t := by
  cases h with
  | some related => exact Option.Rel.some (imp related)
  | none => exact Option.Rel.none

/-- **The simulation rule for one system.**  Where a relation is symmetric, carries a condition
over, and lets every step that meets the condition be taken on the other side too, runs that meet
it end in related states, or nowhere. -/
theorem run_related {step : σ → α → Option σ} {C : σ → α → Prop} {R : σ → σ → Prop}
    (symm : ∀ {s t}, R s t → R t s) (carry : ∀ {s t a}, R s t → C s a → C t a)
    (keep : ∀ {s t a u}, R s t → C s a → step s a = some u → ∃ v, step t a = some v ∧ R u v)
    {s t : σ} {as : List α} (start : R s t) (meets : Meets step C s as) :
    Option.Rel R (run step s as) (run step t as) := by
  induction as generalizing s t with
  | nil => exact Option.Rel.some start
  | cons a as ih =>
      rw [run_cons, run_cons]
      cases hs : step s a with
      | none =>
          cases ht : step t a with
          | none => exact Option.Rel.none
          | some v =>
              obtain ⟨u, hu, -⟩ := keep (symm start) (carry start meets.1) ht
              rw [hs] at hu
              cases hu
      | some u =>
          obtain ⟨v, ht, related⟩ := keep start meets.1 hs
          rw [ht]
          exact ih related (meets.2 u hs)

/-- **The matching rule.**  Where every step of the one system is matched by steps of the other
that show the same labels, a run of the one is matched by a run of the other that does. -/
theorem run_matched {γ : Type*} {step : σ → α → Option σ} {step' : τ → β → Option τ}
    (shows : α → Option γ) (shows' : β → Option γ) {C : σ → α → Prop} {R : σ → τ → Prop}
    (keep : ∀ s t a s', R s t → C s a → step s a = some s' →
      ∃ bs t', run step' t bs = some t' ∧ bs.filterMap shows' = (shows a).toList ∧ R s' t')
    {s s' : σ} {t : τ} {as : List α} (start : R s t) (meets : Meets step C s as)
    (hs : run step s as = some s') :
    ∃ bs t', run step' t bs = some t' ∧ bs.filterMap shows' = as.filterMap shows ∧ R s' t' := by
  induction as generalizing s t with
  | nil =>
      cases hs
      exact ⟨[], t, rfl, rfl, start⟩
  | cons a as ih =>
      obtain ⟨u, hu, rest⟩ := run_cons_eq_some.mp hs
      obtain ⟨bs, v, go, same, related⟩ := keep s t a u start meets.1 hu
      obtain ⟨bs', t', go', same', related'⟩ := ih related (meets.2 u hu) rest
      refine ⟨bs ++ bs', t', run_append_eq_some.mpr ⟨v, go, go'⟩, ?_, related'⟩
      rw [List.filterMap_append, same, same', List.filterMap_cons]
      cases shows a <;> rfl

/-- **The ranking rule.**  Where no step raises a rank and every step of some kind lowers it,
a run that never ends has finitely many steps of the kind. -/
theorem finitely_many_of_rank {ρ : Type*} [PartialOrder ρ] [WellFoundedLT ρ] (rank : σ → ρ)
    {K : α → Prop} {states : ℕ → σ} {labels : ℕ → α}
    (le : ∀ i, rank (states (i + 1)) ≤ rank (states i))
    (lt : ∀ i, K (labels i) → rank (states (i + 1)) < rank (states i)) :
    ∃ N, ∀ i, N ≤ i → ¬ K (labels i) := by
  have antitone : Antitone fun i => rank (states i) := antitone_nat_of_succ_le le
  obtain ⟨N, const⟩ := WellFoundedLT.antitone_chain_condition antitone
  refine ⟨N, fun i late kind => ?_⟩
  have lower := lt i kind
  have same : rank (states i) = rank (states (i + 1)) :=
    (const i late).symm.trans (const (i + 1) (Nat.le_succ_of_le late))
  exact lower.ne same.symm

end StepSystem
