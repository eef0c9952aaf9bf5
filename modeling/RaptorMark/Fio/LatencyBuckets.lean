import Mathlib.Data.Nat.Log
import Mathlib.Tactic.Ring

/-!
# Latency buckets

`plat_val_to_idx` and `plat_idx_to_val` of `stat.c` with the constants of
`stat.h`: the counter a latency is counted in, and the latency a counter stands
for.  A latency keeps the seven bits from its most significant one on, so the
buckets grow with the latency and the value of a bucket is never further from a
sample in it than one part in 128, up to the largest latency that is tracked.
-/

set_option autoImplicit false

namespace RaptorMark.Fio

def platBits : Nat := 6

def platVal : Nat := 1 <<< platBits

def platGroupNr : Nat := 29

def platNr : Nat := platGroupNr * platVal

/-- `__builtin_clzll` of a value that is not zero. -/
def builtinClzll (val : Nat) : Nat := 63 - Nat.log2 val

def platValToIdx (val : Nat) : Nat :=
  let msb := if val = 0 then 0 else 64 - builtinClzll val - 1
  if msb ≤ platBits then
    val
  else
    let errorBits := msb - platBits
    let base := (errorBits + 1) <<< platBits
    let offset := (platVal - 1) &&& (val >>> errorBits)
    if base + offset < platNr - 1 then base + offset else platNr - 1

/-- The value of a bucket.  `(k + 0.5) * (1 << error_bits)` is a whole number,
as a bucket behind the exact ones has at least one error bit. -/
def platIdxToVal (idx : Nat) : Nat :=
  if idx < platVal <<< 1 then
    idx
  else
    let errorBits := (idx >>> platBits) - 1
    let base := 1 <<< (errorBits + platBits)
    let k := idx % platVal
    base + (2 * k + 1) * (1 <<< errorBits) / 2

/-- The bits of a latency that its bucket does not keep. -/
def errorBitsOf (val : Nat) : Nat := Nat.log2 val - 6

theorem errorBitsOf_mono {val other : Nat} (le : val ≤ other) :
    errorBitsOf val ≤ errorBitsOf other := by
  have logs : Nat.log2 val ≤ Nat.log2 other := by
    rw [Nat.log2_eq_log_two, Nat.log2_eq_log_two]
    exact Nat.log_mono_right le
  rw [errorBitsOf, errorBitsOf]
  omega

/-- What a latency keeps fits seven bits. -/
theorem kept_lt (val : Nat) : val / 2 ^ errorBitsOf val < 128 := by
  rw [Nat.div_lt_iff_lt_mul (Nat.pow_pos (by decide))]
  by_cases large : 6 ≤ Nat.log2 val
  · have below := Nat.lt_log2_self (n := val)
    have split : 2 ^ (Nat.log2 val + 1) = 128 * 2 ^ errorBitsOf val := by
      rw [errorBitsOf, show (128 : Nat) = 2 ^ 7 from rfl, ← Nat.pow_add]
      congr 1
      omega
    omega
  · have none : errorBitsOf val = 0 := by
      rw [errorBitsOf]
      omega
    have below := Nat.lt_log2_self (n := val)
    have bound : 2 ^ (Nat.log2 val + 1) ≤ 2 ^ 6 := Nat.pow_le_pow_right (by decide) (by omega)
    rw [none]
    omega

/-- Where bits are lost, the most significant one is kept. -/
theorem kept_ge (val : Nat) (lossy : 0 < errorBitsOf val) :
    64 ≤ val / 2 ^ errorBitsOf val := by
  rw [Nat.le_div_iff_mul_le (Nat.pow_pos (by decide))]
  have nonzero : val ≠ 0 := by
    rintro rfl
    revert lossy
    decide
  have split : 64 * 2 ^ errorBitsOf val = 2 ^ Nat.log2 val := by
    rw [errorBitsOf] at lossy ⊢
    rw [show (64 : Nat) = 2 ^ 6 from rfl, ← Nat.pow_add]
    congr 1
    omega
  rw [split]
  exact Nat.log2_self_le nonzero

/-- The bucket of a latency among all buckets, without the limit of the array. -/
def openIdx (val : Nat) : Nat := 64 * errorBitsOf val + val / 2 ^ errorBitsOf val

theorem openIdx_mono {val other : Nat} (le : val ≤ other) : openIdx val ≤ openIdx other := by
  have bits := errorBitsOf_mono le
  rw [openIdx, openIdx]
  rcases Nat.lt_or_eq_of_le bits with fewer | same
  · have kept := kept_lt val
    have otherKept := kept_ge other (by omega)
    omega
  · rw [← same]
    have quotients : val / 2 ^ errorBitsOf val ≤ other / 2 ^ errorBitsOf val :=
      Nat.div_le_div_right le
    omega

theorem and_63 (number : Nat) : 63 &&& number = number % 64 := by
  rw [Nat.and_comm, show (63 : Nat) = 2 ^ 6 - 1 from rfl, Nat.and_two_pow_sub_one_eq_mod]

/-- `plat_val_to_idx` in closed form. -/
theorem platValToIdx_eq {val : Nat} (word : val < 18446744073709551616) :
    platValToIdx val = min (openIdx val) 1855 := by
  have sizes : platBits = 6 ∧ platVal = 64 ∧ platNr = 1856 := ⟨rfl, rfl, rfl⟩
  have msb : (if val = 0 then 0 else 64 - builtinClzll val - 1) = Nat.log2 val := by
    by_cases zero : val = 0
    · rw [if_pos zero, zero]
      rfl
    · have top : Nat.log2 val < 64 := (Nat.log2_lt zero).mpr word
      rw [if_neg zero, builtinClzll]
      omega
  simp only [platValToIdx, msb, sizes]
  by_cases lossless : Nat.log2 val ≤ 6
  · rw [if_pos lossless]
    have none : errorBitsOf val = 0 := by
      rw [errorBitsOf]
      omega
    have kept := kept_lt val
    rw [none, Nat.pow_zero, Nat.div_one] at kept
    rw [openIdx, none, Nat.pow_zero, Nat.div_one]
    omega
  · rw [if_neg lossless]
    have bits : Nat.log2 val - 6 = errorBitsOf val := rfl
    have kept := kept_lt val
    have keptGe := kept_ge val (by rw [errorBitsOf]; omega)
    have offset : 64 - 1 &&& val >>> errorBitsOf val = val / 2 ^ errorBitsOf val - 64 := by
      rw [Nat.shiftRight_eq_div_pow, show 64 - 1 = 63 from rfl, and_63]
      omega
    have base : (errorBitsOf val + 1) <<< 6 = 64 * errorBitsOf val + 64 := by
      rw [Nat.shiftLeft_eq]
      omega
    rw [bits, offset, base, openIdx]
    by_cases inside : 64 * errorBitsOf val + 64 + (val / 2 ^ errorBitsOf val - 64) < 1856 - 1
    · rw [if_pos inside]
      omega
    · rw [if_neg inside]
      omega

theorem platValToIdx_lt {val : Nat} (word : val < 18446744073709551616) :
    platValToIdx val < platNr := by
  rw [platValToIdx_eq word, show platNr = 1856 from rfl]
  omega

theorem platValToIdx_mono {val other : Nat} (word : other < 18446744073709551616)
    (le : val ≤ other) : platValToIdx val ≤ platValToIdx other := by
  rw [platValToIdx_eq word, platValToIdx_eq (by omega)]
  have := openIdx_mono le
  omega

/-- The latencies that are tracked accurately, `2 ^ (29 + 6 - 1)` of them. -/
theorem openIdx_lt {val : Nat} (tracked : val < 17179869184) : openIdx val ≤ 1855 := by
  have kept := kept_lt val
  have bits : errorBitsOf val ≤ 27 := by
    rw [errorBitsOf]
    by_cases zero : val = 0
    · rw [zero]
      decide
    · have top : Nat.log2 val < 34 := (Nat.log2_lt zero).mpr tracked
      omega
  rw [openIdx]
  omega

/-- The value of the bucket of a latency lies in the middle of the bucket. -/
theorem platIdxToVal_openIdx {val : Nat} (lossy : 0 < errorBitsOf val) :
    platIdxToVal (openIdx val) =
      val / 2 ^ errorBitsOf val * 2 ^ errorBitsOf val + 2 ^ (errorBitsOf val - 1) := by
  have sizes : platBits = 6 ∧ platVal = 64 ∧ platVal <<< 1 = 128 := ⟨rfl, rfl, rfl⟩
  have kept := kept_lt val
  have keptGe := kept_ge val lossy
  generalize isBits : errorBitsOf val = bits at lossy kept keptGe ⊢
  generalize isKept : val / 2 ^ bits = quotient at kept keptGe ⊢
  have idx : openIdx val = 64 * bits + quotient := by
    rw [openIdx, isBits, isKept]
  have group : (64 * bits + quotient) >>> 6 - 1 = bits := by
    rw [Nat.shiftRight_eq_div_pow]
    omega
  have place : (64 * bits + quotient) % 64 = quotient - 64 := by omega
  have halved : (2 * (quotient - 64) + 1) * 2 ^ bits / 2 =
      (quotient - 64) * 2 ^ bits + 2 ^ (bits - 1) := by
    have double : 2 ^ bits = 2 * 2 ^ (bits - 1) := by
      rw [← Nat.pow_succ']
      congr 1
      omega
    rw [double, ← Nat.mul_assoc, Nat.mul_comm _ 2, Nat.mul_assoc,
      Nat.mul_div_cancel_left _ (by decide)]
    ring
  have base : 2 ^ (bits + 6) = 64 * 2 ^ bits := by
    rw [Nat.pow_add, Nat.mul_comm]
  rw [platIdxToVal, idx, if_neg (by rw [sizes.2.2]; omega)]
  simp only [sizes, group, place, Nat.one_shiftLeft, halved, base]
  rw [← Nat.add_assoc, ← Nat.add_mul]
  congr 2
  omega

/-- The value of the bucket is off by at most one part in 128. -/
theorem bucket_error {val : Nat} (tracked : val < 17179869184) :
    128 * (platIdxToVal (platValToIdx val) - val) ≤ val ∧
      128 * (val - platIdxToVal (platValToIdx val)) ≤ val := by
  have inside := openIdx_lt tracked
  rw [platValToIdx_eq (by omega), Nat.min_eq_left inside]
  by_cases lossless : errorBitsOf val = 0
  · have kept := kept_lt val
    rw [lossless, Nat.pow_zero, Nat.div_one] at kept
    have same : openIdx val = val := by
      rw [openIdx, lossless, Nat.pow_zero, Nat.div_one]
      omega
    have direct : val < platVal <<< 1 := kept
    rw [same, platIdxToVal, if_pos direct]
    omega
  · have lossy := Nat.pos_of_ne_zero lossless
    rw [platIdxToVal_openIdx lossy]
    have keptGe := kept_ge val lossy
    have double : 2 ^ errorBitsOf val = 2 * 2 ^ (errorBitsOf val - 1) := by
      rw [← Nat.pow_succ']
      congr 1
      omega
    have split := Nat.div_add_mod val (2 ^ errorBitsOf val)
    have remainder := Nat.mod_lt val (Nat.pow_pos (n := errorBitsOf val) (by decide : 0 < 2))
    have lower : 64 * 2 ^ errorBitsOf val ≤ val / 2 ^ errorBitsOf val * 2 ^ errorBitsOf val :=
      Nat.mul_le_mul_right _ keptGe
    rw [Nat.mul_comm] at split
    omega

end RaptorMark.Fio
