import RaptorMark.Data.JSONBlanks
import RaptorMark.Fio.JsonOutput
import RaptorMark.Native.EngineListText

/-!
# The words that numbers are printed as

`printf` writes a number with a few characters that neither C nor Java treats
specially, so that the word arrives as it was written.  For a `long` the reader
finds the number itself: the word has no point, no letter, and a zero in front
only if the number is zero, so that it is read in base ten.
-/

set_option autoImplicit false

namespace RaptorMark.Native

open Lib Lib.ModifiedUtf8 Lib.CNumber Fio.Json JSONTokener

variable (java : JavaLang)

/-- The bytes that `printf` writes numbers with. -/
def numberBytes : List UInt8 := asciiText "-.0123456789infa"

theorem unitOf_ascii : ∀ b ∈ numberBytes,
    encodeUnit (unitOf b) = [b] ∧ isNumberUnit (unitOf b) = true := by
  decide +kernel

theorem encode_word (word : List UInt8) (number : ∀ b ∈ word, b ∈ numberBytes) :
    encode (word.map unitOf) = word := by
  induction word with
  | nil => rfl
  | cons b rest ih =>
      rw [List.map_cons, encode_cons, (unitOf_ascii b (number b (List.mem_cons_self ..))).1,
        ih fun other member => number other (List.mem_cons_of_mem _ member)]
      rfl

theorem reads_numberWord (word : List UInt8) (nonempty : word ≠ [])
    (number : ∀ b ∈ word, b ∈ numberBytes) :
    Reads java (3 * (word.map unitOf).length) (word.map unitOf)
      (wordRead java (word.map unitOf)) := by
  have read := reads_word java (word.map unitOf) (by simpa using nonempty) (by
    intro unit member
    obtain ⟨b, inWord, rfl⟩ := List.mem_map.mp member
    exact (unitOf_ascii b (number b inWord)).2)
  have some := List.length_pos_of_ne_nil nonempty
  exact read.mono java (by rw [List.length_map]; omega)

/-! ## Decimal digits -/

def digitUnit (digit : Nat) : UInt16 := unitOf (ascii digit.digitChar)

def digitUnits (number : Nat) : JavaText := ((Nat.toDigits 10 number).map ascii).map unitOf

theorem digitUnits_small {number : Nat} (small : number < 10) :
    digitUnits number = [digitUnit number] := by
  rw [digitUnits, Nat.toDigits_of_lt_base small]
  rfl

theorem digitUnits_large {number : Nat} (large : 10 ≤ number) :
    digitUnits number = digitUnits (number / 10) ++ [digitUnit (number % 10)] := by
  rw [digitUnits, Nat.toDigits_of_base_le (by decide) large, List.map_append, List.map_append]
  rfl

/-- A digit is neither a sign nor, unless its value is zero, the mark of another
base. -/
theorem digitUnit_plain {digit : Nat} (small : digit < 10) :
    digitUnit digit ≠ asciiUnit '-' ∧ digitUnit digit ≠ asciiUnit '+' ∧
      (digitUnit digit = asciiUnit '0' → digit = 0) := by
  have table : ∀ digit < 10, digitUnit digit ≠ asciiUnit '-' ∧ digitUnit digit ≠ asciiUnit '+' ∧
      (digitUnit digit = asciiUnit '0' → digit = 0) := by
    decide
  exact table digit small

/-- A digit stands for its value. -/
theorem characterDigit_digitUnit {digit : Nat} (small : digit < 10) :
    characterDigit java 10 (digitUnit digit) = some digit := by
  have table : ∀ digit < 10, digitUnit digit < 0x80 ∧
      asciiHexDigit (digitUnit digit) = some digit := by
    decide
  obtain ⟨ascii, value⟩ := table digit small
  rw [characterDigit, hexDigit, if_pos ascii, value, Option.filter_some,
    if_pos (decide_eq_true small)]

/-- Only zero starts with a zero. -/
theorem digitUnits_starts (number : Nat) :
    ∃ digit rest, digitUnits number = digitUnit digit :: rest ∧ digit < 10 ∧
      (digit = 0 → number = 0) := by
  induction number using Nat.strongRecOn with
  | ind number ih =>
      by_cases small : number < 10
      · exact ⟨number, [], digitUnits_small small, small, id⟩
      · obtain ⟨digit, rest, starts, bound, zero⟩ := ih (number / 10) (by omega)
        refine ⟨digit, rest ++ [digitUnit (number % 10)], ?_, bound, ?_⟩
        · rw [digitUnits_large (by omega), starts, List.cons_append]
        · intro isZero
          have nothing := zero isZero
          omega

/-- The induction follows the digits from the back, the number divided by ten. -/
theorem digitUnits_values (number : Nat) :
    ∃ values, (digitUnits number).mapM (characterDigit java 10) = some values ∧
      values.foldl (fun value digit => 10 * value + digit) 0 = number := by
  induction number using Nat.strongRecOn with
  | ind number ih =>
      by_cases small : number < 10
      · refine ⟨[number], ?_, Nat.zero_add number⟩
        rw [digitUnits_small small, List.mapM_cons, characterDigit_digitUnit java small]
        rfl
      · obtain ⟨values, read, folded⟩ := ih (number / 10) (by omega)
        have last := characterDigit_digitUnit java (Nat.mod_lt number (by decide : 0 < 10))
        refine ⟨values ++ [number % 10], ?_, ?_⟩
        · rw [digitUnits_large (by omega), List.mapM_append, read, List.mapM_cons, last]
          rfl
        · rw [List.foldl_append, folded, List.foldl_cons, List.foldl_nil]
          omega

theorem parseLong_digitUnits (negative : Bool) (magnitude : Nat) :
    parseLong java 10 ((if negative then [asciiUnit '-'] else []) ++ digitUnits magnitude) =
      longWithin (if negative then -magnitude else magnitude) := by
  obtain ⟨digit, rest, starts, bound, _⟩ := digitUnits_starts magnitude
  obtain ⟨values, read, folded⟩ := digitUnits_values java magnitude
  obtain ⟨notMinus, notPlus, _⟩ := digitUnit_plain bound
  have nonempty : digitUnits magnitude ≠ [] := by
    rw [starts]
    exact List.cons_ne_nil _ _
  cases negative with
  | true =>
      simp only [parseLong, if_true, List.singleton_append, List.head?_cons, true_or,
        List.tail_cons, if_neg nonempty, read, Option.bind_eq_bind, Option.bind_some, folded]
  | false =>
      have noMinus : (digitUnits magnitude).head? ≠ some (asciiUnit '-') := by
        rw [starts]
        simpa using notMinus
      have noPlus : (digitUnits magnitude).head? ≠ some (asciiUnit '+') := by
        rw [starts]
        simpa using notPlus
      simp only [parseLong, Bool.false_eq_true, if_false, List.nil_append, noMinus, noPlus, or_self,
        if_neg nonempty, read, Option.bind_eq_bind, Option.bind_some, folded]

/-! ## The format `%lld` -/

theorem printLld_digits (number : Int64) :
    printLld number ≠ [] ∧ ∀ b ∈ printLld number, b ∈ asciiText "-0123456789" := by
  have digit : ∀ c : Char, c.isDigit = true → ascii c ∈ asciiText "-0123456789" := by
    intro c isDigit
    have range : 48 ≤ c.toNat ∧ c.toNat ≤ 57 := by
      simpa [Char.isDigit, UInt32.le_iff_toNat_le] using isDigit
    have table : ∀ code < 58, 48 ≤ code → UInt8.ofNat code ∈ asciiText "-0123456789" := by
      decide +kernel
    exact table c.toNat (by omega) range.1
  constructor
  · rw [printLld]
    simp
  · intro b member
    rw [printLld, List.mem_append] at member
    rcases member with sign | digits
    · by_cases negative : number.toInt < 0
      · rw [if_pos negative, List.mem_singleton] at sign
        rw [sign]
        decide
      · rw [if_neg negative] at sign
        cases sign
    · obtain ⟨c, inDigits, rfl⟩ := List.mem_map.mp digits
      exact digit c (Nat.isDigit_of_mem_toDigits (by decide) (by decide) inDigits)

theorem printLld_word (number : Int64) : ∀ b ∈ printLld number, b ∈ numberBytes := by
  have table : ∀ b ∈ asciiText "-0123456789", b ∈ numberBytes := by decide +kernel
  exact fun b member => table b ((printLld_digits number).2 b member)

theorem printLld_units (number : Int64) :
    (printLld number).map unitOf =
      (if decide (number.toInt < 0) then [asciiUnit '-'] else []) ++
        digitUnits number.toInt.natAbs := by
  rw [printLld, List.map_append, digitUnits]
  congr 1
  by_cases negative : number.toInt < 0
  · rw [if_pos negative, if_pos (decide_eq_true negative)]
    rfl
  · rw [if_neg negative, if_neg (by simpa using negative)]
    rfl

theorem longWithin_toInt (number : Int64) : longWithin number.toInt = some number := by
  rw [longWithin, if_pos ⟨number.minValue_le_toInt, number.toInt_le⟩, Int64.ofInt_toInt]

/-- No mark of a fraction or of base 16 is printed. -/
theorem printLld_unmarked (number : Int64) : ∀ unit ∈ (printLld number).map unitOf,
    unit ∉ [asciiUnit '.', asciiUnit 'x', asciiUnit 'X'] := by
  have table : (asciiText "-0123456789").all (fun b =>
      unitOf b ∉ [asciiUnit '.', asciiUnit 'x', asciiUnit 'X']) = true := by
    decide +kernel
  rw [List.forall_mem_map]
  exact fun b member =>
    of_decide_eq_true (List.all_eq_true.mp table b ((printLld_digits number).2 b member))

/-- No zero is printed in front of other digits. -/
theorem printLld_noOctal (number : Int64) :
    ¬(((printLld number).map unitOf).head? = some (asciiUnit '0') ∧
      1 < ((printLld number).map unitOf).length) := by
  rw [printLld_units]
  rintro ⟨zero, longer⟩
  by_cases negative : number.toInt < 0
  · rw [if_pos (decide_eq_true negative), List.singleton_append, List.head?_cons] at zero
    exact absurd zero (by decide)
  · obtain ⟨digit, rest, starts, bound, isZero⟩ := digitUnits_starts number.toInt.natAbs
    rw [if_neg (by simpa using negative), List.nil_append] at zero longer
    rw [starts, List.head?_cons, Option.some.injEq] at zero
    have nothing := isZero ((digitUnit_plain bound).2.2 zero)
    rw [nothing] at longer
    exact absurd longer (by decide)

/-- A printed `long` is read as the number it is. -/
theorem longOf_printLld (number : Int64) :
    longOf java ((printLld number).map unitOf) = some number := by
  have noPoint : asciiUnit '.' ∉ (printLld number).map unitOf := fun member =>
    printLld_unmarked number _ member (by decide)
  have noBase : ¬(((printLld number).map unitOf).take 2 = ofString "0x" ∨
      ((printLld number).map unitOf).take 2 = ofString "0X") := by
    rintro (same | same)
    · have letter : asciiUnit 'x' ∈ ((printLld number).map unitOf).take 2 := by
        rw [same]
        decide
      exact printLld_unmarked number _ (List.mem_of_mem_take letter) (by decide)
    · have letter : asciiUnit 'X' ∈ ((printLld number).map unitOf).take 2 := by
        rw [same]
        decide
      exact printLld_unmarked number _ (List.mem_of_mem_take letter) (by decide)
  have value : (if decide (number.toInt < 0) = true then -(number.toInt.natAbs : Int)
      else number.toInt.natAbs) = number.toInt := by
    split
    · rename_i negative
      have := of_decide_eq_true negative
      omega
    · rename_i positive
      have := of_decide_eq_false (Bool.eq_false_iff.mpr positive)
      omega
  rw [longOf, if_neg noPoint, if_neg noBase, if_neg (printLld_noOctal number), printLld_units,
    parseLong_digitUnits, value, longWithin_toInt]

end RaptorMark.Native
