import Mathlib.Data.Nat.Bitwise
import Mathlib.Data.Set.Basic

/-!
# Bits packed into words

`IsLowest word position` names the lowest set bit of a word; `lowest_halved` is
the step of a search for it that halves the width.  `bitAt` reads a list of
words as one long row of bits.  `Full set height block` says that the set holds
every number of an aligned block of `64 ^ height` numbers; a bitmap of bitmaps
keeps one bit for each block, and the lemmas about `Full` say how blocks of one
height are made of the blocks below.
-/

set_option autoImplicit false

namespace RaptorMark.Lib.PackedBits

section Words

variable {width : Nat}

def IsLowest (word : BitVec width) (position : Nat) : Prop :=
  word.getLsbD position = true ∧ ∀ lower < position, word.getLsbD lower = false

def lowMask (width count : Nat) : BitVec width := BitVec.ofNat width (2 ^ count - 1)

theorem getLsbD_lowMask (count index : Nat) :
    (lowMask width count).getLsbD index = (decide (index < width) && decide (index < count)) := by
  rw [lowMask, BitVec.getLsbD_ofNat, Nat.testBit_two_pow_sub_one]

theorem exists_lowest (word : BitVec width) (nonzero : word ≠ BitVec.ofNat width 0) :
    ∃ position < width, IsLowest word position := by
  refine ⟨word.ctz.toNat, ?_, BitVec.getLsbD_true_ctz_of_ne_zero nonzero, ?_⟩
  · by_contra beyond
    have present := BitVec.getLsbD_true_ctz_of_ne_zero nonzero
    rw [BitVec.getLsbD_of_ge word word.ctz.toNat (by omega)] at present
    cases present
  · intro lower below
    exact BitVec.getLsbD_false_of_lt_ctz below

theorem low_clear_iff (word : BitVec width) (count : Nat) :
    word &&& lowMask width count = BitVec.ofNat width 0 ↔
      ∀ index < count, word.getLsbD index = false := by
  rw [BitVec.zero_iff_eq_false]
  constructor
  · intro clear index below
    by_cases inside : index < width
    · have bit := clear index
      rw [BitVec.getLsbD_and, getLsbD_lowMask, decide_eq_true inside, decide_eq_true below,
        Bool.and_true, Bool.and_true] at bit
      exact bit
    · exact BitVec.getLsbD_of_ge word index (by omega)
  · intro clear index
    rw [BitVec.getLsbD_and, getLsbD_lowMask]
    by_cases below : index < count
    · rw [clear index below, Bool.false_and]
    · rw [decide_eq_false below, Bool.and_false, Bool.and_false]

/-- One halving: the low half is clear and the search goes on above it, or the
lowest set bit lies in the low half. -/
theorem lowest_halved {word : BitVec width} {position : Nat} (half : Nat)
    (lowest : IsLowest word position) :
    if word &&& lowMask width half = BitVec.ofNat width 0 then
      half ≤ position ∧ IsLowest (word >>> half) (position - half)
    else position < half := by
  by_cases clear : word &&& lowMask width half = BitVec.ofNat width 0
  · rw [if_pos clear]
    have above : half ≤ position := by
      by_contra below
      have bit := (low_clear_iff word half).mp clear position (by omega)
      rw [lowest.1] at bit
      cases bit
    refine ⟨above, ?_, ?_⟩
    · rw [BitVec.getLsbD_ushiftRight, Nat.add_sub_cancel' above]
      exact lowest.1
    · intro lower below
      rw [BitVec.getLsbD_ushiftRight]
      exact lowest.2 _ (by omega)
  · rw [if_neg clear]
    by_contra beyond
    apply clear
    rw [low_clear_iff]
    intro index below
    exact lowest.2 index (by omega)

/-- A word has all its bits when no bit is missing. -/
theorem eq_allOnes_iff (word : BitVec width) :
    word = BitVec.allOnes width ↔ ∀ index < width, word.getLsbD index = true := by
  constructor
  · intro whole index inside
    rw [whole, BitVec.getLsbD_allOnes]
    simp [inside]
  · intro whole
    apply BitVec.eq_of_getLsbD_eq
    intro index inside
    rw [whole index inside, BitVec.getLsbD_allOnes]
    simp [inside]

end Words

section Rows

variable {width : Nat}

def bitAt (words : List (BitVec width)) (index : Nat) : Bool :=
  (words.getD (index / width) (BitVec.ofNat width 0)).getLsbD (index % width)

theorem bitAt_of_word {words : List (BitVec width)} {offset : Nat} {word : BitVec width}
    (stored : words[offset]? = some word) {bit : Nat} (inside : bit < width) :
    bitAt words (width * offset + bit) = word.getLsbD bit := by
  have quotient : (width * offset + bit) / width = offset := by
    rw [Nat.mul_add_div (by omega), Nat.div_eq_of_lt inside, Nat.add_zero]
  have remainder : (width * offset + bit) % width = bit := by
    rw [Nat.mul_add_mod, Nat.mod_eq_of_lt inside]
  rw [bitAt, quotient, remainder, List.getD_eq_getElem?_getD, stored, Option.getD_some]

/-- Writing one word changes the bits of that word only. -/
theorem bitAt_set {words : List (BitVec width)} {offset : Nat} (inside : offset < words.length)
    (word : BitVec width) (index : Nat) :
    bitAt (words.set offset word) index =
      if index / width = offset then word.getLsbD (index % width) else bitAt words index := by
  by_cases same : index / width = offset
  · subst same
    rw [if_pos rfl, bitAt, List.getD_eq_getElem?_getD, List.getElem?_set_self inside,
      Option.getD_some]
  · rw [if_neg same, bitAt, bitAt, List.getD_eq_getElem?_getD, List.getD_eq_getElem?_getD,
      List.getElem?_set_ne (Ne.symm same)]

theorem bitAt_replicate_zero (length index : Nat) :
    bitAt (List.replicate length (BitVec.ofNat width 0)) index = false := by
  rw [bitAt, List.getD_eq_getElem?_getD, List.getElem?_replicate]
  split <;> exact BitVec.getLsbD_zero

end Rows

section Blocks

/-- The set holds every number of block number `block` of height `height`. -/
def Full (set : Set Nat) (height block : Nat) : Prop :=
  ∀ number, number / 64 ^ height = block → number ∈ set

theorem full_zero (set : Set Nat) (number : Nat) : Full set 0 number ↔ number ∈ set := by
  constructor
  · intro full
    exact full number (by simp)
  · intro member other same
    rw [Nat.pow_zero, Nat.div_one] at same
    rw [same]
    exact member

theorem div_pow_succ (number height : Nat) :
    number / 64 ^ (height + 1) = number / 64 ^ height / 64 := by
  rw [Nat.pow_succ, Nat.div_div_eq_div_mul]

/-- A block is full when the sixty-four blocks it is made of are. -/
theorem full_succ (set : Set Nat) (height block : Nat) :
    Full set (height + 1) block ↔ ∀ bit < 64, Full set height (64 * block + bit) := by
  constructor
  · intro full bit inside number same
    apply full
    rw [div_pow_succ, same]
    omega
  · intro parts number same
    rw [div_pow_succ] at same
    apply parts (number / 64 ^ height % 64) (Nat.mod_lt _ (by decide))
    omega

theorem Full.mono {smaller larger : Set Nat} (included : smaller ⊆ larger) {height block : Nat}
    (full : Full smaller height block) : Full larger height block :=
  fun number same => included (full number same)

/-- The block of a greater height that contains a block which is not full is
not full either. -/
theorem Full.part {set : Set Nat} {height block : Nat} (more : Nat) :
    Full set (height + more) (block / 64 ^ more) → Full set height block := by
  intro full number same
  apply full
  rw [Nat.pow_add, ← Nat.div_div_eq_div_mul, same]

/-- The number of blocks of a height that meet the numbers below `bound`. -/
def blockCount (bound height : Nat) : Nat := (bound + 64 ^ height - 1) / 64 ^ height

theorem lt_blockCount_iff (bound height block : Nat) :
    block < blockCount bound height ↔ 64 ^ height * block < bound := by
  have positive : 0 < 64 ^ height := Nat.pow_pos (by decide)
  have expanded : (block + 1) * 64 ^ height = 64 ^ height * block + 64 ^ height := by
    rw [Nat.add_mul, Nat.one_mul, Nat.mul_comm]
  rw [blockCount, ← Nat.succ_le_iff, Nat.le_div_iff_mul_le positive, Nat.succ_eq_add_one, expanded]
  omega

theorem blockCount_succ (bound height : Nat) :
    blockCount bound (height + 1) = (blockCount bound height + 64 - 1) / 64 := by
  apply eq_of_forall_lt_iff
  intro block
  have inner := lt_blockCount_iff bound height (64 * block)
  rw [lt_blockCount_iff, Nat.pow_succ, Nat.mul_assoc, ← inner]
  omega

theorem div_lt_blockCount {bound number : Nat} (below : number < bound) (height : Nat) :
    number / 64 ^ height < blockCount bound height := by
  rw [lt_blockCount_iff]
  exact lt_of_le_of_lt (Nat.mul_div_le number (64 ^ height)) below

/-- Two sets that differ inside one block only, which neither of them fills,
fill the same blocks from that height on. -/
theorem full_congr_above {smaller larger : Set Nat} (included : smaller ⊆ larger)
    {height block : Nat} (missing : ¬ Full larger height block)
    (elsewhere : ∀ number ∈ larger, number / 64 ^ height ≠ block → number ∈ smaller)
    (more other : Nat) :
    Full larger (height + more) other ↔ Full smaller (height + more) other := by
  constructor
  · intro full number same
    apply elsewhere number (full number same)
    intro inside
    apply missing
    apply Full.part more
    have position : other = block / 64 ^ more := by
      rw [← same, Nat.pow_add, ← Nat.div_div_eq_div_mul, inside]
    rw [← position]
    exact full
  · exact Full.mono included

end Blocks

end RaptorMark.Lib.PackedBits
