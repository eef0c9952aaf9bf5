import Mathlib.Logic.Function.Basic
import Mathlib.Data.Nat.Bitwise
import Mathlib.Data.Nat.ModEq

/-!
# Rings of slots

An array of `capacity` slots that is filled at one end and emptied at the other
holds, in order, the `count` slots from `start` on, wrapping at its end.  Slots
that are not among these keep what they held; nothing below looks at them.
-/

set_option autoImplicit false

namespace RaptorMark.Lib.Ring

universe u

variable {α : Type u}

def contents (slots : Nat → α) (capacity start count : Nat) : List α :=
  (List.range count).map fun i => slots ((start + i) % capacity)

theorem contents_zero (slots : Nat → α) (capacity start : Nat) :
    contents slots capacity start 0 = [] := rfl

theorem contents_succ (slots : Nat → α) (capacity start count : Nat) :
    contents slots capacity start (count + 1) =
      contents slots capacity start count ++ [slots ((start + count) % capacity)] := by
  rw [contents, List.range_succ, List.map_append]
  rfl

/-- The first `front` slots and then the rest. -/
theorem contents_add (slots : Nat → α) (capacity start front count : Nat) :
    contents slots capacity start (front + count) =
      contents slots capacity start front ++
        contents slots capacity ((start + front) % capacity) count := by
  induction count with
  | zero => rw [contents_zero, List.append_nil, Nat.add_zero]
  | succ count ih =>
      rw [← Nat.add_assoc, contents_succ, ih, contents_succ, List.append_assoc]
      congr 4
      rw [Nat.mod_add_mod, Nat.add_assoc]

/-- Up to the end of the array the slots lie side by side. -/
theorem contents_contiguous (slots : Nat → α) {capacity start count : Nat}
    (fits : start + count ≤ capacity) :
    contents slots capacity start count = (List.range count).map fun i => slots (start + i) := by
  apply List.map_congr_left
  intro i member
  rw [List.mem_range] at member
  rw [Nat.mod_eq_of_lt (by omega)]

/-- A write behind the last slot of a ring that is not full. -/
theorem contents_write (slots : Nat → α) {capacity start count : Nat} (room : count < capacity)
    (added : α) :
    contents (Function.update slots ((start + count) % capacity) added) capacity start
        (count + 1) = contents slots capacity start count ++ [added] := by
  rw [contents_succ, Function.update_self]
  congr 1
  apply List.map_congr_left
  intro i member
  rw [List.mem_range] at member
  -- another slot of the ring is written than those that are read
  rw [Function.update_of_ne]
  intro same
  have shifted : (start + count) % capacity = (start + i) % capacity := same.symm
  have equal := Nat.ModEq.add_left_cancel' start (n := capacity) shifted
  rw [Nat.ModEq, Nat.mod_eq_of_lt room, Nat.mod_eq_of_lt (by omega)] at equal
  omega

/-- A number that shares no bit with its predecessor is a power of two. -/
theorem eq_two_pow_of_and_pred {number : Nat} (nonzero : number ≠ 0)
    (disjoint : number &&& (number - 1) = 0) : number = 2 ^ Nat.log2 number := by
  have lower := Nat.log2_self_le nonzero
  have upper := Nat.lt_log2_self (n := number)
  by_contra larger
  have top : number.testBit (Nat.log2 number) = true :=
    Nat.testBit_of_two_pow_le_and_two_pow_add_one_gt lower upper
  have topBefore : (number - 1).testBit (Nat.log2 number) = true :=
    Nat.testBit_of_two_pow_le_and_two_pow_add_one_gt (by omega) (by omega)
  have shared := congrArg (fun bits => bits.testBit (Nat.log2 number)) disjoint
  simp only [Nat.testBit_and, top, topBefore, Nat.zero_testBit, Bool.and_self] at shared
  cases shared

/-- For such a capacity the mask is the remainder. -/
theorem and_pred_eq_mod {capacity : Nat} (nonzero : capacity ≠ 0)
    (disjoint : capacity &&& (capacity - 1) = 0) (number : Nat) :
    number &&& (capacity - 1) = number % capacity := by
  rw [eq_two_pow_of_and_pred nonzero disjoint, Nat.and_two_pow_sub_one_eq_mod]

/-- Or-ing with itself, shifted, doubles how far the bits reach down. -/
theorem spread_double {number spread reach : Nat}
    (reaches : ∀ i, spread.testBit i = true ↔ ∃ up < reach, number.testBit (i + up) = true)
    (i : Nat) :
    (spread ||| spread >>> reach).testBit i = true ↔
      ∃ up < reach + reach, number.testBit (i + up) = true := by
  rw [Nat.testBit_or, Nat.testBit_shiftRight, Bool.or_eq_true, reaches, reaches]
  constructor
  · rintro (⟨up, near, isSet⟩ | ⟨up, near, isSet⟩)
    · exact ⟨up, by omega, isSet⟩
    · refine ⟨reach + up, by omega, ?_⟩
      rwa [show i + (reach + up) = reach + i + up by omega]
  · rintro ⟨up, near, isSet⟩
    by_cases low : up < reach
    · exact Or.inl ⟨up, low, isSet⟩
    · refine Or.inr ⟨up - reach, by omega, ?_⟩
      rwa [show reach + i + (up - reach) = i + up by omega]

/-- A number whose bits reach all the way down has only ones. -/
theorem eq_two_pow_sub_one_of_spread {number spread reach : Nat} (nonzero : number ≠ 0)
    (far : Nat.log2 number < reach)
    (reaches : ∀ i, spread.testBit i = true ↔ ∃ up < reach, number.testBit (i + up) = true) :
    spread = 2 ^ (Nat.log2 number + 1) - 1 := by
  apply Nat.eq_of_testBit_eq
  intro i
  rw [Nat.testBit_two_pow_sub_one, Bool.eq_iff_iff, reaches, decide_eq_true_eq]
  constructor
  · rintro ⟨up, _, isSet⟩
    have le := Nat.ge_two_pow_of_testBit isSet
    have below : i + up ≤ Nat.log2 number := (Nat.le_log2 nonzero).mpr le
    omega
  · intro below
    refine ⟨Nat.log2 number - i, by omega, ?_⟩
    rw [show i + (Nat.log2 number - i) = Nat.log2 number by omega]
    exact Nat.testBit_of_two_pow_le_and_two_pow_add_one_gt (Nat.log2_self_le nonzero)
      Nat.lt_log2_self

end RaptorMark.Lib.Ring
