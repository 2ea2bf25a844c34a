import SwiftEvent.Timeval

/-!
# From durations to deadlines

What `EventLoop.timeval(for:)` and `evutil_timeradd` compute, in microseconds.

* A `Duration` that is not negative is truncated to microseconds, and the result
  is normalised (`timevalFor_of_nonneg`).  A negative one is clamped to zero, but
  only from a whole second on: the test is on the seconds component, which is
  zero for every duration between minus one second and zero, and the fraction
  passes through with its sign (`timevalFor_of_neg`).
* The deadline is the exact sum as long as its seconds fit 64 bits, and lies
  before the epoch otherwise (`micros_deadline`, `tvSec_deadline_of_overflow`).
-/

namespace SwiftEvent

namespace Timeval

/-- The value in microseconds. -/
def micros (t : Timeval) : Int := t.tvSec * 10 ^ 6 + t.tvUsec

/-- The microseconds are a fraction of a second. -/
def Normal (t : Timeval) : Prop := 0 ≤ t.tvUsec ∧ t.tvUsec < 10 ^ 6

instance (t : Timeval) : Decidable t.Normal := inferInstanceAs (Decidable (_ ∧ _))

/-- On normalised values the comparison macro compares microseconds. -/
theorem le_iff_micros {t u : Timeval} (ht : t.Normal) (hu : u.Normal) :
    t ≤ u ↔ t.micros ≤ u.micros := by
  obtain ⟨ht₀, ht₁⟩ := ht
  obtain ⟨hu₀, hu₁⟩ := hu
  simp only [le_def, micros]
  split_ifs <;> omega

end Timeval

namespace Duration

/-- The duration in microseconds, rounded down. -/
def micros (d : Duration) : Int := d.count / 10 ^ 12

/-- Negative by at least a microsecond and by less than a second. -/
def NegativeFraction (d : Duration) : Prop := -10 ^ 18 < d.count ∧ d.count ≤ -10 ^ 12

instance (d : Duration) : Decidable d.NegativeFraction := inferInstanceAs (Decidable (_ ∧ _))

end Duration

/-! ## The conversion -/

variable {d d₁ d₂ : Duration} {now : Timeval}

theorem timevalFor_of_nonneg (h : 0 ≤ d.count) :
    timevalFor d = ⟨d.count / 10 ^ 18, d.count % 10 ^ 18 / 10 ^ 12⟩ := by
  have seconds : d.seconds = d.count / 10 ^ 18 := Int.tdiv_eq_ediv_of_nonneg h
  have attoseconds : d.attoseconds = d.count % 10 ^ 18 := Int.tmod_eq_emod_of_nonneg h
  have micro : d.attoseconds.tdiv (10 ^ 12) = d.attoseconds / 10 ^ 12 := by
    apply Int.tdiv_eq_ediv_of_nonneg
    omega
  have nonneg : 0 ≤ d.seconds := by omega
  rw [timevalFor, micro, if_neg (Int.not_lt.mpr nonneg), max_eq_left nonneg, seconds, attoseconds]

/-- The seconds component of a negative duration is tested, and its fraction is
not. -/
theorem timevalFor_of_neg (h : d.count < 0) :
    timevalFor d =
      if d.count ≤ -10 ^ 18 then ⟨0, 0⟩ else ⟨0, -(-d.count / 10 ^ 12)⟩ := by
  have seconds : d.seconds = -(-d.count / 10 ^ 18) := by
    have := Int.neg_tdiv d.count (10 ^ 18)
    rw [Int.tdiv_eq_ediv_of_nonneg (by omega)] at this
    rw [this, Duration.seconds, Int.neg_neg]
  have attoseconds : d.attoseconds = -(-d.count % 10 ^ 18) := by
    have := Int.neg_tmod d.count (10 ^ 18)
    rw [Int.tmod_eq_emod_of_nonneg (by omega)] at this
    rw [this, Duration.attoseconds, Int.neg_neg]
  have micro : d.attoseconds.tdiv (10 ^ 12) = -(-d.count % 10 ^ 18 / 10 ^ 12) := by
    rw [attoseconds, Int.neg_tdiv, Int.tdiv_eq_ediv_of_nonneg (by omega)]
  split
  · next whole =>
      have negative : d.seconds < 0 := by omega
      simp only [timevalFor, if_pos negative, max_eq_right (Int.le_of_lt negative)]
  · next fraction =>
      have zero : d.seconds = 0 := by omega
      have rest : -d.count % 10 ^ 18 = -d.count := Int.emod_eq_of_lt (by omega) (by omega)
      simp only [timevalFor, zero, micro, rest, max_self, if_neg (Int.lt_irrefl 0)]

/-- **The conversion as documented**: a normalised value, the duration rounded down
to microseconds, and zero for everything negative. -/
structure Converts (d : Duration) : Prop where
  sec : 0 ≤ (timevalFor d).tvSec
  usec : (timevalFor d).Normal
  micros : (timevalFor d).micros = max 0 d.micros
  negative : d.count < 0 → timevalFor d = ⟨0, 0⟩

theorem converts_of_nonneg (h : 0 ≤ d.count) : Converts d := by
  have eq := timevalFor_of_nonneg h
  refine ⟨?_, ?_, ?_, fun negative => absurd h (Int.not_le.mpr negative)⟩
  · rw [eq]
    show 0 ≤ d.count / 10 ^ 18
    omega
  · rw [eq]
    show 0 ≤ d.count % 10 ^ 18 / 10 ^ 12 ∧ d.count % 10 ^ 18 / 10 ^ 12 < 10 ^ 6
    omega
  · rw [eq, Timeval.micros, Duration.micros]
    show d.count / 10 ^ 18 * 10 ^ 6 + d.count % 10 ^ 18 / 10 ^ 12 = max 0 (d.count / 10 ^ 12)
    omega

theorem converts_of_neg (h : d.count < 0) : Converts d ↔ ¬ d.NegativeFraction := by
  have eq := timevalFor_of_neg h
  constructor
  · rintro converts ⟨above, below⟩
    have := converts.usec.1
    rw [eq, if_neg (by omega)] at this
    have this : 0 ≤ -(-d.count / 10 ^ 12) := this
    omega
  · intro outside
    have zero : timevalFor d = ⟨0, 0⟩ := by
      rw [eq]
      split
      · rfl
      · next fraction =>
          have small : -d.count / 10 ^ 12 = 0 := by
            by_contra large
            exact outside ⟨by omega, by omega⟩
          rw [small]
          rfl
    refine ⟨by rw [zero], by rw [zero]; decide, ?_, fun _ => zero⟩
    rw [zero, Duration.micros]
    show (0 : Int) * 10 ^ 6 + 0 = max 0 (d.count / 10 ^ 12)
    omega

theorem converts_iff (d : Duration) : Converts d ↔ ¬ d.NegativeFraction := by
  by_cases negative : d.count < 0
  · exact converts_of_neg negative
  · refine iff_of_true (converts_of_nonneg (Int.not_lt.mp negative)) fun fraction => ?_
    have := fraction.2
    omega

theorem Converts.le (h₁ : Converts d₁) (h₂ : Converts d₂) (le : d₁.count ≤ d₂.count) :
    timevalFor d₁ ≤ timevalFor d₂ := by
  rw [Timeval.le_iff_micros h₁.usec h₂.usec, h₁.micros, h₂.micros, Duration.micros,
    Duration.micros]
  omega

/-- The value of a negative fraction is negative. -/
theorem timevalFor_of_negativeFraction (h : d.NegativeFraction) :
    timevalFor d = ⟨0, -(-d.count / 10 ^ 12)⟩ ∧ -(-d.count / 10 ^ 12) < 0 := by
  obtain ⟨above, below⟩ := h
  refine ⟨?_, by omega⟩
  rw [timevalFor_of_neg (by omega), if_neg (by omega)]

/-- **Exact, clamped and monotone, except for a fraction of a second below zero.** -/
theorem timeval_exact_iff (d : Duration) :
    (Converts d ↔ ¬ d.NegativeFraction) ∧
      ∀ d', d.count ≤ d'.count →
        (timevalFor d ≤ timevalFor d' ↔ (d'.NegativeFraction → d.NegativeFraction)) := by
  refine ⟨converts_iff d, fun d' le => ?_⟩
  by_cases bad' : d'.NegativeFraction
  · obtain ⟨eq', lt'⟩ := timevalFor_of_negativeFraction bad'
    by_cases bad : d.NegativeFraction
    · obtain ⟨eq, -⟩ := timevalFor_of_negativeFraction bad
      refine iff_of_true ?_ fun _ => bad
      rw [eq, eq', Timeval.le_def]
      show if (0 : Int) = 0 then -(-d.count / 10 ^ 12) ≤ -(-d'.count / 10 ^ 12) else (0 : Int) ≤ 0
      rw [if_pos rfl]
      omega
    · refine iff_of_false ?_ fun h => bad (h bad')
      have negative : d.count < 0 := by
        have := bad'.2
        omega
      rw [((converts_iff d).mpr bad).negative negative, eq', Timeval.le_def]
      show ¬ if (0 : Int) = 0 then (0 : Int) ≤ -(-d'.count / 10 ^ 12) else (0 : Int) ≤ 0
      rw [if_pos rfl]
      omega
  · refine iff_of_true ?_ fun h => absurd h bad'
    have good' := (converts_iff d').mpr bad'
    by_cases bad : d.NegativeFraction
    · obtain ⟨eq, lt⟩ := timevalFor_of_negativeFraction bad
      have sec := good'.sec
      have usec := good'.usec.1
      rw [eq, Timeval.le_def]
      show if (0 : Int) = (timevalFor d').tvSec then -(-d.count / 10 ^ 12) ≤ (timevalFor d').tvUsec
        else (0 : Int) ≤ (timevalFor d').tvSec
      split <;> omega
    · exact ((converts_iff d).mpr bad).le good' le

/-- One and a half seconds, and two. -/
theorem timeval_exact_iff_seconds :
    Converts ⟨15 * 10 ^ 17⟩ ∧ timevalFor ⟨15 * 10 ^ 17⟩ ≤ timevalFor ⟨2 * 10 ^ 18⟩ :=
  ⟨(timeval_exact_iff _).1.mpr (by decide),
    ((timeval_exact_iff _).2 ⟨2 * 10 ^ 18⟩ (by decide)).mpr (by decide)⟩

/-- **Half a second below zero is not clamped.** -/
theorem timeval_minus_half :
    timevalFor ⟨-(5 * 10 ^ 17)⟩ = ⟨0, -500000⟩ ∧ ¬ Converts ⟨-(5 * 10 ^ 17)⟩ := by
  refine ⟨by decide, fun converts => ?_⟩
  have := converts.usec.1
  revert this
  decide

/-! ## Deadlines -/

/-- The deadline of a call with the timeout, made at `now`. -/
def deadline (now : Timeval) (d : Duration) : Timeval := evutilTimeradd now (timevalFor d)

/-- The exact deadline in microseconds. -/
def exactDeadline (now : Timeval) (d : Duration) : Int := now.micros + d.micros

theorem wrap64_of_fits {n : Int} (lo : -2 ^ 63 ≤ n) (hi : n < 2 ^ 63) : wrap64 n = n := by
  rw [wrap64]
  apply Int.bmod_eq_of_le <;> push_cast <;> omega

theorem wrap64_of_overflow {n : Int} (lo : 2 ^ 63 ≤ n) (hi : n < 2 ^ 64) :
    wrap64 n = n - 2 ^ 64 := by
  rw [wrap64, ← Int.sub_bmod_right]
  apply Int.bmod_eq_of_le <;> push_cast <;> omega

/-- A clock reading. -/
structure Timeval.Reading (now : Timeval) : Prop where
  nonneg : 0 ≤ now.tvSec
  fits : now.tvSec < 2 ^ 63
  normal : now.Normal

/-- `evutil_timeradd` of a clock reading and a converted duration, with its carry. -/
theorem deadline_eq (reading : now.Reading) (nonneg : 0 ≤ d.count) :
    deadline now d =
      let usec := now.tvUsec + (timevalFor d).tvUsec
      let sec := wrap64 (now.tvSec + (timevalFor d).tvSec)
      if 10 ^ 6 ≤ usec then ⟨wrap64 (sec + 1), usec - 10 ^ 6⟩ else ⟨sec, usec⟩ := by
  obtain ⟨lo, hi⟩ := reading.normal
  obtain ⟨lo', hi'⟩ := (converts_of_nonneg nonneg).usec
  have usec : wrap64 (now.tvUsec + (timevalFor d).tvUsec) = now.tvUsec + (timevalFor d).tvUsec :=
    wrap64_of_fits (by omega) (by omega)
  simp only [deadline, evutilTimeradd, usec]
  rfl

/-- The seconds and microseconds of the exact deadline. -/
theorem exactDeadline_eq (nonneg : 0 ≤ d.count) :
    exactDeadline now d = (now.tvSec + (timevalFor d).tvSec) * 10 ^ 6 +
      (now.tvUsec + (timevalFor d).tvUsec) := by
  have micros := (converts_of_nonneg nonneg).micros
  have positive : 0 ≤ d.micros := by
    rw [Duration.micros]
    omega
  rw [max_eq_right positive, Timeval.micros] at micros
  rw [exactDeadline, ← micros, Timeval.micros]
  omega

/-- **The deadline is exact** when its seconds fit. -/
theorem micros_deadline (reading : now.Reading) (nonneg : 0 ≤ d.count)
    (fits : exactDeadline now d / 10 ^ 6 < 2 ^ 63) :
    (deadline now d).Normal ∧ (deadline now d).micros = exactDeadline now d := by
  obtain ⟨lo, hi⟩ := reading.normal
  obtain ⟨lo', hi'⟩ := (converts_of_nonneg nonneg).usec
  have sec := reading.nonneg
  have sec' := (converts_of_nonneg nonneg).sec
  have exact_ : exactDeadline now d = _ := exactDeadline_eq nonneg
  rw [exact_] at fits
  have whole : wrap64 (now.tvSec + (timevalFor d).tvSec) = now.tvSec + (timevalFor d).tvSec :=
    wrap64_of_fits (by omega) (by omega)
  rw [deadline_eq reading nonneg, exact_]
  dsimp only
  rw [whole]
  split
  · next carry =>
      rw [wrap64_of_fits (by omega) (by omega)]
      refine ⟨⟨?_, ?_⟩, ?_⟩
      · show 0 ≤ now.tvUsec + (timevalFor d).tvUsec - 10 ^ 6
        omega
      · show now.tvUsec + (timevalFor d).tvUsec - 10 ^ 6 < 10 ^ 6
        omega
      · show (now.tvSec + (timevalFor d).tvSec + 1) * 10 ^ 6 +
          (now.tvUsec + (timevalFor d).tvUsec - 10 ^ 6) = _
        omega
  · next noCarry =>
      refine ⟨⟨?_, ?_⟩, rfl⟩
      · show 0 ≤ now.tvUsec + (timevalFor d).tvUsec
        omega
      · show now.tvUsec + (timevalFor d).tvUsec < 10 ^ 6
        omega

/-- **A deadline that does not fit lies before the epoch.** -/
theorem tvSec_deadline_of_overflow (reading : now.Reading) (nonneg : 0 ≤ d.count)
    (seconds : d.seconds < 2 ^ 63) (overflow : 2 ^ 63 ≤ exactDeadline now d / 10 ^ 6) :
    (deadline now d).tvSec < 0 := by
  obtain ⟨lo, hi⟩ := reading.normal
  obtain ⟨lo', hi'⟩ := (converts_of_nonneg nonneg).usec
  have sec := reading.fits
  have positive : 0 ≤ d.seconds := by
    rw [Duration.seconds, Int.tdiv_eq_ediv_of_nonneg nonneg]
    omega
  have sec' : (timevalFor d).tvSec < 2 ^ 63 := by
    show max d.seconds 0 < 2 ^ 63
    omega
  rw [exactDeadline_eq nonneg] at overflow
  rw [deadline_eq reading nonneg]
  dsimp only
  split
  · next carry =>
      show wrap64 (wrap64 (now.tvSec + (timevalFor d).tvSec) + 1) < 0
      by_cases wraps : 2 ^ 63 ≤ now.tvSec + (timevalFor d).tvSec
      · rw [wrap64_of_overflow wraps (by omega), wrap64_of_fits (by omega) (by omega)]
        omega
      · -- the carry alone overflows
        rw [wrap64_of_fits (n := now.tvSec + (timevalFor d).tvSec) (by omega) (by omega),
          wrap64_of_overflow (by omega) (by omega)]
        omega
  · next noCarry =>
      show wrap64 (now.tvSec + (timevalFor d).tvSec) < 0
      rw [wrap64_of_overflow (by omega) (by omega)]
      omega

/-- **Deadlines are ordered if and only if the later one fits.** -/
theorem deadlines_ordered_iff (sec : 0 ≤ now.tvSec) (fits : now.tvSec < 2 ^ 63)
    (usec : 0 ≤ now.tvUsec ∧ now.tvUsec < 10 ^ 6) (nonneg : 0 ≤ d₁.count)
    (le : d₁.count ≤ d₂.count) (seconds : d₂.seconds < 2 ^ 63) :
    (now ≤ deadline now d₁ ∧ deadline now d₁ ≤ deadline now d₂) ↔
      (now.micros + d₂.micros) / 10 ^ 6 < 2 ^ 63 := by
  have reading : now.Reading := ⟨sec, fits, usec⟩
  have nonneg₂ : 0 ≤ d₂.count := Int.le_trans nonneg le
  have micros : 0 ≤ d₁.micros ∧ d₁.micros ≤ d₂.micros := by
    simp only [Duration.micros]
    omega
  constructor
  · intro ordered
    by_contra overflow
    have before := tvSec_deadline_of_overflow reading nonneg₂ seconds (Int.not_lt.mp overflow)
    have after := Timeval.le_trans ordered.1 ordered.2
    rw [Timeval.le_def] at after
    split at after <;> omega
  · intro late
    have late : exactDeadline now d₂ / 10 ^ 6 < 2 ^ 63 := late
    have early : exactDeadline now d₁ / 10 ^ 6 < 2 ^ 63 := by
      simp only [exactDeadline] at late ⊢
      omega
    obtain ⟨normal₁, eq₁⟩ := micros_deadline reading nonneg early
    obtain ⟨normal₂, eq₂⟩ := micros_deadline reading nonneg₂ late
    rw [Timeval.le_iff_micros usec normal₁, Timeval.le_iff_micros normal₁ normal₂, eq₁, eq₂]
    simp only [exactDeadline]
    omega

/-- A second and an hour, at an ordinary reading. -/
theorem deadlines_ordered_hour :
    (⟨1000, 5⟩ : Timeval) ≤ deadline ⟨1000, 5⟩ ⟨10 ^ 18⟩ ∧
      deadline ⟨1000, 5⟩ ⟨10 ^ 18⟩ ≤ deadline ⟨1000, 5⟩ ⟨3600 * 10 ^ 18⟩ :=
  (deadlines_ordered_iff (by decide) (by decide) (by decide) (by decide) (by decide)
    (by decide)).mpr (by decide)

/-- **The longest duration expires at once**: one second after boot its deadline
wraps to a negative time. -/
theorem deadline_forever :
    let forever : Duration := ⟨(2 ^ 63 - 1) * 10 ^ 18⟩
    forever.seconds < 2 ^ 63 ∧ deadline ⟨1, 0⟩ forever = ⟨-2 ^ 63, 0⟩ ∧
      ¬ ((⟨1, 0⟩ : Timeval) ≤ deadline ⟨1, 0⟩ ⟨0⟩ ∧
        deadline ⟨1, 0⟩ ⟨0⟩ ≤ deadline ⟨1, 0⟩ forever) := by
  decide

end SwiftEvent
