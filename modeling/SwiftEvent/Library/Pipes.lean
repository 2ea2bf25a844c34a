import Mathlib.Logic.Function.Basic
import Mathlib.Data.List.Infix

/-!
# Pairs of byte streams

Any number of endpoints, some of them linked in pairs.  What one end of a pair
sends is queued at the other end until it is received there.  Nothing is assumed
of the endpoints and of what is sent, and an endpoint that is linked to none may
be fed from outside.

* `Balanced` — linking is symmetric, and at each linked end the items received so
  far, followed by the ones queued, are the items the other end has sent.
* `push`, `pop`, `feed`, `link` — what keeps the balance.
* `received_prefix` — order and content survive the transport.
-/

namespace Pipes

universe u v

variable {K : Type u} {α : Type v}

/-- **Nothing is lost, made up or reordered** between linked endpoints. -/
structure Balanced (peer : K → Option K) (queue sent received : K → List α) : Prop where
  symm : ∀ k k', peer k = some k' → peer k' = some k
  flow : ∀ k k', peer k = some k' → received k' ++ queue k' = sent k

namespace Balanced

variable {peer : K → Option K} {queue sent received : K → List α} {k k' : K}

/-- What has arrived is the beginning of what was sent. -/
theorem received_prefix (h : Balanced peer queue sent received) (link : peer k = some k') :
    received k' <+: sent k :=
  ⟨queue k', h.flow k k' link⟩

/-- A linked endpoint is the peer of one endpoint only. -/
theorem peer_inj (h : Balanced peer queue sent received) {j : K} (link : peer k = some k')
    (link' : peer j = some k') : j = k :=
  Option.some.inj ((h.symm j k' link').symm.trans (h.symm k k' link))

variable [DecidableEq K]

/-- Sending over a link. -/
theorem push (h : Balanced peer queue sent received) (link : peer k = some k') (items : List α) :
    Balanced peer (Function.update queue k' (queue k' ++ items))
      (Function.update sent k (sent k ++ items)) received := by
  refine ⟨h.symm, fun j j' linked => ?_⟩
  by_cases eq : j = k
  · subst eq
    obtain rfl := Option.some.inj (link.symm.trans linked)
    rw [Function.update_self, Function.update_self, ← List.append_assoc, h.flow j k' link]
  · have ne : j' ≠ k' := by
      rintro rfl
      exact eq (h.peer_inj link linked)
    rw [Function.update_of_ne eq, Function.update_of_ne ne]
    exact h.flow j j' linked

/-- Sending where nobody of these endpoints listens. -/
theorem push_outside (h : Balanced peer queue sent received) (alone : peer k = none)
    (items : List α) : Balanced peer queue (Function.update sent k items) received := by
  refine ⟨h.symm, fun j j' linked => ?_⟩
  have ne : j ≠ k := by
    rintro rfl
    rw [alone] at linked
    cases linked
  rw [Function.update_of_ne ne]
  exact h.flow j j' linked

/-- Receiving the first items of the queue. -/
theorem pop (h : Balanced peer queue sent received) (k : K) (n : Nat) :
    Balanced peer (Function.update queue k ((queue k).drop n)) sent
      (Function.update received k (received k ++ (queue k).take n)) := by
  refine ⟨h.symm, fun j j' linked => ?_⟩
  by_cases eq : j' = k
  · subst eq
    rw [Function.update_self, Function.update_self, List.append_assoc, List.take_append_drop]
    exact h.flow j j' linked
  · rw [Function.update_of_ne eq, Function.update_of_ne eq]
    exact h.flow j j' linked

/-- What reaches an endpoint that is linked to none does not matter. -/
theorem feed (h : Balanced peer queue sent received) (alone : peer k = none) (items : List α) :
    Balanced peer (Function.update queue k items) sent received := by
  refine ⟨h.symm, fun j j' linked => ?_⟩
  have ne : j' ≠ k := by
    rintro rfl
    rw [h.symm j j' linked] at alone
    cases alone
  rw [Function.update_of_ne ne]
  exact h.flow j j' linked

/-- Two endpoints that have not been used are linked. -/
theorem link (h : Balanced peer queue sent received) (ne : k ≠ k') (alone : peer k = none)
    (alone' : peer k' = none) (silent : sent k = [] ∧ received k = [] ∧ queue k = [])
    (silent' : sent k' = [] ∧ received k' = [] ∧ queue k' = []) :
    Balanced (Function.update (Function.update peer k (some k')) k' (some k)) queue sent
      received := by
  -- the other endpoints are linked as they were, and to neither of the two
  have other : ∀ {j j'}, j ≠ k → j ≠ k' → peer j = some j' → j' ≠ k ∧ j' ≠ k' := by
    intro j j' _ _ linked
    constructor
    · rintro rfl
      rw [h.symm j j' linked] at alone
      cases alone
    · rintro rfl
      rw [h.symm j j' linked] at alone'
      cases alone'
  constructor
  · intro j j' linked
    by_cases eq' : j = k'
    · subst eq'
      rw [Function.update_self, Option.some.injEq] at linked
      subst linked
      rw [Function.update_of_ne ne, Function.update_self]
    · rw [Function.update_of_ne eq'] at linked
      by_cases eq : j = k
      · subst eq
        rw [Function.update_self, Option.some.injEq] at linked
        subst linked
        rw [Function.update_self]
      · rw [Function.update_of_ne eq] at linked
        obtain ⟨ne₁, ne₂⟩ := other eq eq' linked
        rw [Function.update_of_ne ne₂, Function.update_of_ne ne₁]
        exact h.symm j j' linked
  · intro j j' linked
    by_cases eq' : j = k'
    · subst eq'
      rw [Function.update_self, Option.some.injEq] at linked
      subst linked
      rw [silent.2.1, silent.2.2, silent'.1, List.append_nil]
    · rw [Function.update_of_ne eq'] at linked
      by_cases eq : j = k
      · subst eq
        rw [Function.update_self, Option.some.injEq] at linked
        subst linked
        rw [silent'.2.1, silent'.2.2, silent.1, List.append_nil]
      · rw [Function.update_of_ne eq] at linked
        exact h.flow j j' linked

end Balanced

end Pipes
