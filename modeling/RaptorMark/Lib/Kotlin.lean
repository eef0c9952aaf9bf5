import Mathlib.Data.Rat.Defs
import Mathlib.Data.List.Infix

/-!
# Kotlin and Java conversions

Floating values are exact rationals.  `Double.toInt` and `Double.toLong` drop
the fraction and then saturate at the ends of the target type, as the language
defines them; integer arithmetic on `Int32` and `Int64` wraps.  Texts are
indexed by character; the code only cuts them at indices that a search found.
-/

set_option autoImplicit false

namespace RaptorMark.Lib.Kotlin

/-- The exceptions that modelled code throws or catches. -/
inductive JavaException where
  | jsonException
  | uriSyntaxException
  | nullPointerException
  | indexOutOfBoundsException
  | nativeException
  deriving DecidableEq, Repr

/-- The integer part, rounding toward zero. -/
def integerPart (value : ℚ) : ℤ := value.num.tdiv value.den

/-- `Int.MIN_VALUE`, `Int.MAX_VALUE` and those of `Long`. -/
def intMin : ℤ := -2147483648
def intMax : ℤ := 2147483647
def longMin : ℤ := -9223372036854775808
def longMax : ℤ := 9223372036854775807

def saturate (low high value : ℤ) : ℤ := max low (min high value)

def doubleToInt (value : ℚ) : Int32 :=
  Int32.ofInt (saturate intMin intMax (integerPart value))

def doubleToLong (value : ℚ) : Int64 :=
  Int64.ofInt (saturate longMin longMax (integerPart value))

/-- `CharSequence.contains(String)`. -/
def containsText (text pattern : String) : Bool := decide (pattern.toList <:+: text.toList)

/-- `String.indexOf(Char, Int)`, -1 when the character does not occur. -/
def indexOf (text : String) (c : Char) (startIndex : Nat) : Int :=
  match (text.toList.drop startIndex).idxOf? c with
  | some index => startIndex + index
  | none => -1

/-- `String.substring(Int, Int)`. -/
def substring (text : String) (startIndex endIndex : Int) : Except JavaException String :=
  if 0 ≤ startIndex ∧ startIndex ≤ endIndex ∧ endIndex ≤ text.length then
    .ok (String.ofList ((text.toList.drop startIndex.toNat).take (endIndex - startIndex).toNat))
  else
    .error .indexOutOfBoundsException

section Sorting

variable {α κ : Type} [LE κ] [DecidableLE κ]

/-- `Iterable.sortedByDescending`, a stable sort. -/
def sortedByDescending (selector : α → κ) (elements : List α) : List α :=
  elements.mergeSort fun first second => selector second ≤ selector first

theorem sortedByDescending_perm (selector : α → κ) (elements : List α) :
    (sortedByDescending selector elements).Perm elements :=
  List.mergeSort_perm _ _

theorem sortedByDescending_pairwise [Std.IsLinearPreorder κ] (selector : α → κ)
    (elements : List α) :
    (sortedByDescending selector elements).Pairwise fun first second =>
      selector second ≤ selector first := by
  have sorted : (sortedByDescending selector elements).Pairwise fun first second =>
      decide (selector second ≤ selector first) = true := by
    apply List.pairwise_mergeSort
    · intro first second third upper lower
      simp only [decide_eq_true_eq] at upper lower ⊢
      exact Std.le_trans lower upper
    · intro first second
      simp only [Bool.or_eq_true, decide_eq_true_eq]
      exact Std.le_total
  simpa only [decide_eq_true_eq] using sorted

end Sorting

theorem doubleToInt_toInt (value : ℚ) :
    (doubleToInt value).toInt = saturate intMin intMax (integerPart value) := by
  have low : -2147483648 ≤ saturate intMin intMax (integerPart value) := by
    unfold saturate intMin intMax
    omega
  have high : saturate intMin intMax (integerPart value) < 2147483648 := by
    unfold saturate intMin intMax
    omega
  exact Int32.toInt_ofInt_of_le (by simpa using low) (by simpa using high)

end RaptorMark.Lib.Kotlin
