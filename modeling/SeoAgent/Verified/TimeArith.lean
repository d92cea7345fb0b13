import Mathlib.Algebra.Order.Field.Rat
import Mathlib.Algebra.Order.Ring.Abs
import Mathlib.Tactic.Linarith
import Mathlib.Tactic.Ring
import Mathlib.Tactic.FieldSimp

/-!
# Times, spans of time and their arithmetic

Programs move times by spans of time, multiply a span by a whole number and
divide it by one. `TimeArith` has these operations over one type for both, a time
being the span since a fixed origin, so a program written over it has two readings:

* over `Int`, whole microseconds with the ranges of `datetime` and `timedelta`
  and division rounded to the nearest microsecond, a tie to the even one;
* over `ℚ`, exact microseconds without bounds.

## Main results

* `divideNearest_error` — the rounded quotient is within half of the exact one.
* `shift_eq_ok_iff`, `times_eq_ok_iff`, `divided_eq_ok_iff` — when the bounded operations
  succeed, and with what.
-/

namespace SeoAgent.Verified

/-- Why an operation on times fails. -/
inductive ArithmeticError
  | overflow
  | zeroDivision
  deriving DecidableEq, Repr

/-- Operations on times and spans of time. -/
class TimeArith (τ : Type) where
  /-- The span of so many microseconds. -/
  span : Int → τ
  /-- A time moved by a span. -/
  shift : τ → τ → Except ArithmeticError τ
  times : τ → Nat → Except ArithmeticError τ
  divided : τ → Nat → Except ArithmeticError τ

namespace TimeArith

/-! ## Rounding -/

/-- The quotient rounded to the nearest integer, a tie to the even one. -/
def divideNearest (a : Int) (b : Nat) : Int :=
  if (b : Int) < 2 * (a % b) ∨ 2 * (a % b) = b ∧ a / b % 2 = 1 then a / b + 1
  else a / b

/-- Rounding is off by at most half. -/
theorem divideNearest_error (a : Int) {b : Nat} (hb : 0 < b) :
    2 * (b * divideNearest a b) - 2 * a ≤ b ∧ 2 * a - 2 * (b * divideNearest a b) ≤ b := by
  have hdiv : (b : Int) * (a / b) + a % b = a := Int.mul_ediv_add_emod a b
  have hnonneg : 0 ≤ a % (b : Int) := Int.emod_nonneg a (by omega)
  have hlt : a % (b : Int) < b := Int.emod_lt_of_pos a (by omega)
  have hsucc : (b : Int) * (a / b + 1) = b * (a / b) + b := by ring
  unfold divideNearest
  split
  · rw [hsucc]
    omega
  · omega

theorem divideNearest_nonneg {a : Int} {b : Nat} (ha : 0 ≤ a) :
    0 ≤ divideNearest a b := by
  have hq : 0 ≤ a / (b : Int) := Int.ediv_nonneg ha (by omega)
  unfold divideNearest
  split <;> omega

/-- A quotient by more than one is no larger than what is divided. -/
theorem divideNearest_le {a : Int} {b : Nat} (ha : 0 ≤ a) (hb : 0 < b) :
    divideNearest a b ≤ a := by
  have hdiv : (b : Int) * (a / b) + a % b = a := Int.mul_ediv_add_emod a b
  have hnonneg : 0 ≤ a % (b : Int) := Int.emod_nonneg a (by omega)
  have hlt : a % (b : Int) < b := Int.emod_lt_of_pos a (by omega)
  have hq : 0 ≤ a / (b : Int) := Int.ediv_nonneg ha (by omega)
  have hle : a / (b : Int) ≤ b * (a / b) := by nlinarith
  unfold divideNearest
  split
  · omega
  · omega

/-! ## Whole microseconds -/

/-- The microseconds of a day. -/
def dayLength : Int := 86400000000

/-- `timedelta.max`, and one microsecond before `timedelta.min`, negated. -/
def spanMax : Int := 1000000000 * dayLength - 1

/-- `timedelta.min`: 999,999,999 days, negative. -/
def spanMin : Int := -999999999 * dayLength

/-- `datetime.max` since 1970. -/
def timeMax : Int := 253402300799999999

/-- `datetime.min` since 1970. -/
def timeMin : Int := -62135596800000000

/-- A span within the range of `timedelta`. -/
def checkSpan (s : Int) : Except ArithmeticError Int :=
  if spanMin ≤ s ∧ s ≤ spanMax then .ok s else .error .overflow

/-- A time within the range of `datetime`. -/
def checkTime (t : Int) : Except ArithmeticError Int :=
  if timeMin ≤ t ∧ t ≤ timeMax then .ok t else .error .overflow

instance : TimeArith Int where
  span us := us
  shift t s := checkTime (t + s)
  times s n := checkSpan (s * n)
  divided s n := if n = 0 then .error .zeroDivision else checkSpan (divideNearest s n)

@[simp] theorem span_int (us : Int) : (span us : Int) = us := rfl

theorem checkTime_eq_ok_iff {t u : Int} :
    checkTime t = .ok u ↔ t = u ∧ timeMin ≤ t ∧ t ≤ timeMax := by
  unfold checkTime
  split
  · next h => simp [h]
  · next h => simp [h]

theorem checkSpan_eq_ok_iff {s u : Int} :
    checkSpan s = .ok u ↔ s = u ∧ spanMin ≤ s ∧ s ≤ spanMax := by
  unfold checkSpan
  split
  · next h => simp [h]
  · next h => simp [h]

theorem shift_eq_ok_iff {t s u : Int} :
    shift t s = .ok u ↔ t + s = u ∧ timeMin ≤ t + s ∧ t + s ≤ timeMax :=
  checkTime_eq_ok_iff

theorem times_eq_ok_iff {s u : Int} {n : Nat} :
    times s n = .ok u ↔ s * n = u ∧ spanMin ≤ s * n ∧ s * n ≤ spanMax :=
  checkSpan_eq_ok_iff

theorem divided_eq_ok_iff {s u : Int} {n : Nat} :
    divided s n = .ok u ↔ n ≠ 0 ∧ divideNearest s n = u ∧
      spanMin ≤ divideNearest s n ∧ divideNearest s n ≤ spanMax := by
  by_cases hn : n = 0
  · simp [divided, hn]
  · simp [divided, hn, checkSpan_eq_ok_iff]

/-! ## Exact microseconds -/

instance : TimeArith ℚ where
  span us := us
  shift t s := .ok (t + s)
  times s n := .ok (s * n)
  divided s n := if n = 0 then .error .zeroDivision else .ok (s / n)

@[simp] theorem span_rat (us : Int) : (span us : ℚ) = us := rfl

@[simp] theorem shift_rat (t s : ℚ) : shift t s = .ok (t + s) := rfl

@[simp] theorem times_rat (s : ℚ) (n : Nat) : times s n = .ok (s * n) := rfl

theorem divided_rat {n : Nat} (hn : n ≠ 0) (s : ℚ) : divided s n = .ok (s / n) :=
  if_neg hn

/-- The rounded quotient is within half a microsecond of the exact one. -/
theorem abs_divideNearest_sub_le (a : Int) {b : Nat} (hb : 0 < b) :
    |(divideNearest a b : ℚ) - a / b| ≤ 1 / 2 := by
  obtain ⟨h₁, h₂⟩ := divideNearest_error a hb
  have hb' : (0 : ℚ) < b := by exact_mod_cast hb
  have h₁' : 2 * ((b : ℚ) * divideNearest a b) - 2 * a ≤ b := by exact_mod_cast h₁
  have h₂' : 2 * (a : ℚ) - 2 * (b * divideNearest a b) ≤ b := by exact_mod_cast h₂
  have hdiv : (b : ℚ) * (a / b) = a := by field_simp
  rw [abs_le]
  constructor
  · by_contra hlt
    have : (b : ℚ) * (divideNearest a b - a / b) < b * -(1 / 2) :=
      mul_lt_mul_of_pos_left (not_le.mp hlt) hb'
    linarith
  · by_contra hlt
    have : (b : ℚ) * (1 / 2) < b * (divideNearest a b - a / b) :=
      mul_lt_mul_of_pos_left (not_le.mp hlt) hb'
    linarith

end TimeArith

end SeoAgent.Verified
