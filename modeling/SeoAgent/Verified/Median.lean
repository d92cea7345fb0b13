import Mathlib.Algebra.Order.Field.Basic
import Mathlib.Data.List.Sort
import Mathlib.Tactic.Positivity

/-!
# The median of a list

The value in the middle of the sorted list, or half of the sum of the two there.

## Main results

* `median_perm` — the order of the values does not matter.
* `median_nonneg`, `le_median`, `median_le` — the median stays within the bounds of the
  values.
-/

namespace SeoAgent.Verified

variable {K : Type} [Field K] [LinearOrder K] {xs ys : List K} {lower upper : K}

/-- The values from the least to the greatest. -/
def ascending (xs : List K) : List K := xs.insertionSort (· ≤ ·)

/-- The median; zero when there is no value. -/
def median (xs : List K) : K :=
  let sorted := ascending xs
  let half := xs.length / 2
  if xs.length % 2 = 1 then sorted.getD half 0
  else (sorted.getD (half - 1) 0 + sorted.getD half 0) / 2

omit [Field K] in
theorem ascending_perm (h : xs.Perm ys) : ascending xs = ascending ys := by
  have hperm : (ascending xs).Perm (ascending ys) :=
    ((List.perm_insertionSort _ xs).trans h).trans (List.perm_insertionSort _ ys).symm
  exact hperm.eq_of_pairwise (fun a b _ _ => le_antisymm)
    (List.pairwise_insertionSort _ xs) (List.pairwise_insertionSort _ ys)

theorem median_perm (h : xs.Perm ys) : median xs = median ys := by
  unfold median
  rw [ascending_perm h, h.length_eq]

@[simp] theorem median_nil : median ([] : List K) = 0 := by simp [median, ascending]

omit [Field K] in
theorem getD_ascending_mem {d : K} {i : Nat} (hi : i < xs.length) :
    (ascending xs).getD i d ∈ xs := by
  have hlen : i < (ascending xs).length := by
    unfold ascending
    rwa [List.length_insertionSort]
  rw [List.getD_eq_getElem?_getD, List.getElem?_eq_getElem hlen, Option.getD_some]
  exact (List.mem_insertionSort _).mp (List.getElem_mem hlen)

variable [IsStrictOrderedRing K]

theorem le_median (hne : xs ≠ []) (h : ∀ x ∈ xs, lower ≤ x) : lower ≤ median xs := by
  have hlen : 0 < xs.length := List.length_pos_iff.mpr hne
  have bound : ∀ i < xs.length, lower ≤ (ascending xs).getD i 0 := fun i hi =>
    h _ (getD_ascending_mem hi)
  unfold median
  dsimp only
  split
  · exact bound _ (by omega)
  · have h₁ := bound (xs.length / 2 - 1) (by omega)
    have h₂ := bound (xs.length / 2) (by omega)
    rw [le_div_iff₀ two_pos, mul_two]
    exact add_le_add h₁ h₂

theorem median_le (hne : xs ≠ []) (h : ∀ x ∈ xs, x ≤ upper) : median xs ≤ upper := by
  have hlen : 0 < xs.length := List.length_pos_iff.mpr hne
  have bound : ∀ i < xs.length, (ascending xs).getD i 0 ≤ upper := fun i hi =>
    h _ (getD_ascending_mem hi)
  unfold median
  dsimp only
  split
  · exact bound _ (by omega)
  · have h₁ := bound (xs.length / 2 - 1) (by omega)
    have h₂ := bound (xs.length / 2) (by omega)
    rw [div_le_iff₀ two_pos, mul_two]
    exact add_le_add h₁ h₂

theorem median_nonneg (h : ∀ x ∈ xs, 0 ≤ x) : 0 ≤ median xs := by
  by_cases hne : xs = []
  · rw [hne, median_nil]
  · exact le_median hne h

end SeoAgent.Verified
