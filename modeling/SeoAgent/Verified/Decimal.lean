import Mathlib.Algebra.Order.Field.Basic
import Mathlib.Tactic.Positivity
import SeoAgent.Verified.TimeArith

/-!
# Rounding to decimal places

`round(x, places)`: the nearest decimal fraction with so many places, a tie to the even
one.

## Main results

* `roundTo_nonneg`, `roundTo_le_one` — rounding stays between zero and one.
* `roundTo_mono`, `abs_roundTo_sub_le` — it keeps the order, and moves a number by at most
  half of the last place.
-/

namespace SeoAgent.Verified

/-- The nearest fraction with so many decimal places. -/
def roundTo (places : Nat) (x : ℚ) : ℚ :=
  TimeArith.divideNearest (x.num * 10 ^ places) x.den / 10 ^ places

variable {places : Nat} {x : ℚ}

/-- Rounding does not pass an integer. -/
theorem divideNearest_le_of_le {a n : Int} {b : Nat} (hb : 0 < b) (h : a ≤ n * b) :
    TimeArith.divideNearest a b ≤ n := by
  have hdiv : (b : Int) * (a / b) + a % b = a := Int.mul_ediv_add_emod a b
  have hnonneg : 0 ≤ a % (b : Int) := Int.emod_nonneg a (by omega)
  have hq : a / (b : Int) ≤ n := by
    have := Int.ediv_le_ediv (by omega : (0 : Int) < b) h
    rwa [Int.mul_ediv_cancel _ (by omega)] at this
  unfold TimeArith.divideNearest
  split
  · next hup =>
      -- The remainder is not zero, so the quotient is below `n`.
      rcases hq.lt_or_eq with hlt | heq
      · omega
      · rw [heq] at hdiv
        have hzero : a % (b : Int) = 0 := by
          have : (b : Int) * n = n * b := by ring
          omega
        omega
  · exact hq

@[simp] theorem roundTo_zero : roundTo places 0 = 0 := by
  simp [roundTo, TimeArith.divideNearest]

theorem roundTo_nonneg (h : 0 ≤ x) : 0 ≤ roundTo places x := by
  have hnum : 0 ≤ x.num * 10 ^ places := by
    have := Rat.num_nonneg.mpr h
    positivity
  have hround : (0 : ℚ) ≤ TimeArith.divideNearest (x.num * 10 ^ places) x.den := by
    exact_mod_cast TimeArith.divideNearest_nonneg (b := x.den) hnum
  exact div_nonneg hround (by positivity)

theorem roundTo_le_one (h : x ≤ 1) : roundTo places x ≤ 1 := by
  have hnum : x.num ≤ x.den := by
    have := Rat.le_iff x 1
    simpa using this.mp h
  have hscaled : x.num * 10 ^ places ≤ 10 ^ places * x.den := by
    rw [mul_comm]
    exact mul_le_mul_of_nonneg_left hnum (by positivity)
  have hround : (TimeArith.divideNearest (x.num * 10 ^ places) x.den : ℚ) ≤ 10 ^ places := by
    exact_mod_cast divideNearest_le_of_le x.den_pos hscaled
  unfold roundTo
  rwa [div_le_iff₀ (by positivity), one_mul]

/-- Rounding is off by at most half of the last place. -/
theorem abs_roundTo_sub_le (places : Nat) (x : ℚ) :
    |roundTo places x - x| ≤ 1 / (2 * 10 ^ places) := by
  have hscale : (0 : ℚ) < 10 ^ places := by positivity
  have hnear := TimeArith.abs_divideNearest_sub_le (x.num * 10 ^ places) x.den_pos
  have hx : ((x.num * 10 ^ places : Int) : ℚ) / x.den = x * 10 ^ places := by
    push_cast
    rw [mul_div_right_comm, Rat.num_div_den]
  rw [hx] at hnear
  have hmove : roundTo places x - x =
      (TimeArith.divideNearest (x.num * 10 ^ places) x.den - x * 10 ^ places) / 10 ^ places := by
    rw [sub_div, mul_div_cancel_right₀ _ hscale.ne']
    rfl
  rw [hmove, abs_div, abs_of_pos hscale, div_le_iff₀ hscale]
  refine hnear.trans (le_of_eq ?_)
  field_simp

/-- Two roundings are equal or a whole last place apart. -/
theorem roundTo_le_or (places : Nat) (x y : ℚ) :
    roundTo places x ≤ roundTo places y ∨
      roundTo places y + 1 / 10 ^ places ≤ roundTo places x := by
  have hscale : (0 : ℚ) < 10 ^ places := by positivity
  unfold roundTo
  rw [← add_div, div_le_div_iff_of_pos_right hscale, div_le_div_iff_of_pos_right hscale]
  rcases le_or_gt (TimeArith.divideNearest (x.num * 10 ^ places) x.den)
    (TimeArith.divideNearest (y.num * 10 ^ places) y.den) with h | h
  · exact .inl (by exact_mod_cast h)
  · exact .inr (by exact_mod_cast h)

/-- Rounding keeps the order. -/
theorem roundTo_mono {x y : ℚ} (h : x ≤ y) : roundTo places x ≤ roundTo places y := by
  rcases roundTo_le_or places x y with hle | hgt
  · exact hle
  · -- A whole place apart, both are ties between the two, so they are one number.
    have hx := abs_le.mp (abs_roundTo_sub_le places x)
    have hy := abs_le.mp (abs_roundTo_sub_le places y)
    have hhalf : (1 : ℚ) / 10 ^ places = 1 / (2 * 10 ^ places) + 1 / (2 * 10 ^ places) := by
      field_simp
      norm_num
    have heq : x = y := by linarith [hx.2, hy.1]
    rw [heq]

/-- What is rounded stays as it is. -/
theorem roundTo_roundTo (places : Nat) (x : ℚ) :
    roundTo places (roundTo places x) = roundTo places x := by
  have hscale : (0 : ℚ) < 1 / (2 * 10 ^ places) := by positivity
  have hhalf : (1 : ℚ) / 10 ^ places = 1 / (2 * 10 ^ places) + 1 / (2 * 10 ^ places) := by
    field_simp
    norm_num
  have hnear := abs_le.mp (abs_roundTo_sub_le places (roundTo places x))
  refine le_antisymm ?_ ?_
  · rcases roundTo_le_or places (roundTo places x) x with h | h
    · exact h
    · linarith [hnear.2]
  · rcases roundTo_le_or places x (roundTo places x) with h | h
    · exact h
    · linarith [hnear.1]

end SeoAgent.Verified
