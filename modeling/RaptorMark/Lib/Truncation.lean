import Mathlib.Data.Rat.Floor
import Mathlib.Tactic.Linarith
import Mathlib.Tactic.NormNum
import Mathlib.Tactic.Positivity
import RaptorMark.Lib.Kotlin

/-!
# Truncation is monotone

The integer part of a rational is its floor from zero on and is odd, so it is
monotone over all rationals; saturation is monotone, and so is `Double.toInt`.
-/

set_option autoImplicit false

namespace RaptorMark.Lib.Kotlin

theorem integerPart_of_nonneg (value : ℚ) (nonneg : 0 ≤ value) : integerPart value = ⌊value⌋ := by
  rw [integerPart, Rat.floor_def', Int.tdiv_eq_ediv_of_nonneg (Rat.num_nonneg.mpr nonneg)]

theorem integerPart_neg (value : ℚ) : integerPart (-value) = -integerPart value := by
  rw [integerPart, Rat.neg_num, Rat.neg_den, Int.neg_tdiv, integerPart]

theorem integerPart_nonneg (value : ℚ) (nonneg : 0 ≤ value) : 0 ≤ integerPart value := by
  rw [integerPart_of_nonneg value nonneg]
  exact Int.floor_nonneg.mpr nonneg

theorem integerPart_mono {small large : ℚ} (le : small ≤ large) :
    integerPart small ≤ integerPart large := by
  by_cases smallNonneg : 0 ≤ small
  · rw [integerPart_of_nonneg small smallNonneg,
      integerPart_of_nonneg large (smallNonneg.trans le)]
    exact Int.floor_le_floor le
  · have smallPart : integerPart small = -⌊-small⌋ := by
      rw [← integerPart_of_nonneg (-small) (by linarith), integerPart_neg, neg_neg]
    by_cases largeNonneg : 0 ≤ large
    · have below : 0 ≤ ⌊-small⌋ := Int.floor_nonneg.mpr (by linarith)
      have above := integerPart_nonneg large largeNonneg
      omega
    · have largePart : integerPart large = -⌊-large⌋ := by
        rw [← integerPart_of_nonneg (-large) (by linarith), integerPart_neg, neg_neg]
      have floors : ⌊-large⌋ ≤ ⌊-small⌋ := Int.floor_le_floor (by linarith)
      omega

theorem saturate_mono {low high small large : ℤ} (le : small ≤ large) :
    saturate low high small ≤ saturate low high large :=
  max_le_max le_rfl (min_le_min le_rfl le)

theorem saturate_of_mem {low high value : ℤ} (above : low ≤ value) (below : value ≤ high) :
    saturate low high value = value := by
  rw [saturate, min_eq_right below, max_eq_right above]

theorem doubleToInt_mono {small large : ℚ} (le : small ≤ large) :
    (doubleToInt small).toInt ≤ (doubleToInt large).toInt := by
  rw [doubleToInt_toInt, doubleToInt_toInt]
  exact saturate_mono (integerPart_mono le)

theorem doubleToInt_nonneg (value : ℚ) (nonneg : 0 ≤ value) : 0 ≤ (doubleToInt value).toInt := by
  rw [doubleToInt_toInt]
  exact le_max_of_le_right (le_min (by decide) (integerPart_nonneg value nonneg))

theorem doubleToInt_of_le (value : ℚ) (nonneg : 0 ≤ value) (fits : integerPart value ≤ intMax) :
    (doubleToInt value).toInt = integerPart value := by
  have part := integerPart_nonneg value nonneg
  rw [doubleToInt_toInt]
  apply saturate_of_mem _ fits
  unfold intMin
  omega

end RaptorMark.Lib.Kotlin
