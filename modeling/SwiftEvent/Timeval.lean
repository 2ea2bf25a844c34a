import Mathlib.Algebra.Order.Ring.Int
import Mathlib.Tactic.SplitIfs

/-!
# Durations, `struct timeval` and the timer macros

The Swift side hands libevent a `timeval` made from a `Duration` by
`EventLoop.timeval(for:)`; libevent adds it to its clock reading with
`evutil_timeradd` and compares deadlines with `evutil_timercmp`
(`event2/util.h`).  Both fields are 64-bit on the modelled platform, so the
addition is taken with two's complement wrap.

A `Duration` is its signed count of attoseconds; `components` splits it by
division truncating toward zero, as the standard library does.
-/

namespace SwiftEvent

/-- `struct timeval`, both fields in their mathematical value. -/
structure Timeval where
  tvSec : Int
  tvUsec : Int
deriving DecidableEq, Repr, Inhabited

/-- Two's complement wrap to 64 bits. -/
def wrap64 (n : Int) : Int := n.bmod (2 ^ 64)

/-- `evutil_timeradd(tvp, uvp, vvp)`. -/
def evutilTimeradd (tvp uvp : Timeval) : Timeval :=
  let sec := wrap64 (tvp.tvSec + uvp.tvSec)
  let usec := wrap64 (tvp.tvUsec + uvp.tvUsec)
  if 1000000 ≤ usec then ⟨wrap64 (sec + 1), usec - 1000000⟩ else ⟨sec, usec⟩

/-- `evutil_timerisset(tvp)`. -/
def evutilTimerisset (tvp : Timeval) : Bool :=
  tvp.tvSec != 0 || tvp.tvUsec != 0

namespace Timeval

/-- `evutil_timercmp(tvp, uvp, <=)`. -/
instance : LE Timeval where
  le tvp uvp :=
    if tvp.tvSec = uvp.tvSec then tvp.tvUsec ≤ uvp.tvUsec else tvp.tvSec ≤ uvp.tvSec

/-- `evutil_timercmp(tvp, uvp, <)`; `>` in the source is this one flipped. -/
instance : LT Timeval where
  lt tvp uvp :=
    if tvp.tvSec = uvp.tvSec then tvp.tvUsec < uvp.tvUsec else tvp.tvSec < uvp.tvSec

instance decidableLe (t u : Timeval) : Decidable (t ≤ u) :=
  inferInstanceAs (Decidable
    (if t.tvSec = u.tvSec then t.tvUsec ≤ u.tvUsec else t.tvSec ≤ u.tvSec))

instance decidableLt (t u : Timeval) : Decidable (t < u) :=
  inferInstanceAs (Decidable
    (if t.tvSec = u.tvSec then t.tvUsec < u.tvUsec else t.tvSec < u.tvSec))

theorem le_def {t u : Timeval} :
    t ≤ u ↔ if t.tvSec = u.tvSec then t.tvUsec ≤ u.tvUsec else t.tvSec ≤ u.tvSec :=
  Iff.rfl

theorem lt_def {t u : Timeval} :
    t < u ↔ if t.tvSec = u.tvSec then t.tvUsec < u.tvUsec else t.tvSec < u.tvSec :=
  Iff.rfl

/-- The comparison macro is transitive whatever the fields hold, normalised or
not: it is the lexicographic order. -/
theorem le_trans {t u v : Timeval} (h : t ≤ u) (h' : u ≤ v) : t ≤ v := by
  rw [le_def] at *
  split_ifs at * <;> omega

theorem le_refl (t : Timeval) : t ≤ t := by
  rw [le_def, if_pos rfl]

theorem le_of_eq {t u : Timeval} (h : t = u) : t ≤ u := by
  subst h
  exact le_refl t

theorem not_le {t u : Timeval} : ¬ t ≤ u ↔ u < t := by
  rw [le_def, lt_def]
  split_ifs <;> omega

end Timeval

/-- A Swift `Duration`, as its signed count of attoseconds. -/
structure Duration where
  count : Int
deriving DecidableEq, Repr

/-- `Duration.components.seconds`. -/
def Duration.seconds (d : Duration) : Int := d.count.tdiv (10 ^ 18)

/-- `Duration.components.attoseconds`; it carries the sign of the duration. -/
def Duration.attoseconds (d : Duration) : Int := d.count.tmod (10 ^ 18)

/-- `EventLoop.timeval(for:)`. -/
def timevalFor (duration : Duration) : Timeval :=
  let seconds := max duration.seconds 0
  let microseconds :=
    if duration.seconds < 0 then 0 else duration.attoseconds.tdiv (10 ^ 12)
  ⟨seconds, microseconds⟩

end SwiftEvent
