import RaptorMark.Fio.AxmapLevels
import RaptorMark.Fio.Smalloc

/-!
# Runs of blocks in a pool

What `blocks_iter` does to the bits of a pool, and what the search for a free
run may return.  The search can ask for a run that starts beyond the end of its
word: the sign of a word whose upper bits are set fills it up when it is
shifted.  Such a run is never taken for free, whatever the machine makes of the
shifts that C leaves open.
-/

set_option autoImplicit false

namespace RaptorMark.Fio.Smalloc

open Lib.PackedBits
open Fio

variable (wild : BitVec 32 → Nat → BitVec 32)

/-! ## Masks -/

theorem getLsbD_blocksMask {count idx : Nat} (fits : idx + count ≤ 32) (some : 0 < count)
    (bit : Nat) :
    (blocksMask wild count idx).getLsbD bit = decide (idx ≤ bit ∧ bit < idx + count) := by
  by_cases whole : count = 32
  · have first : idx = 0 := by omega
    subst whole first
    rw [blocksMask, if_pos (show 32 = bpi from rfl), BitVec.getLsbD_allOnes]
    simp
  · have table : ∀ count : Fin 32, (1#32 <<< count.val) - 1#32 = lowMask 32 count.val := by decide
    have low : shl wild 1#32 count - 1#32 = lowMask 32 count := by
      rw [shl, if_pos (by omega)]
      exact table ⟨count, by omega⟩
    rw [blocksMask, if_neg (show ¬ count = bpi from whole), low, shl, if_pos (by omega),
      BitVec.getLsbD_shiftLeft, getLsbD_lowMask]
    by_cases inside : idx ≤ bit ∧ bit < idx + count
    · rw [decide_eq_true inside, decide_eq_true (by omega : bit < 32),
        decide_eq_false (by omega : ¬ bit < idx), decide_eq_true (by omega : bit - idx < 32),
        decide_eq_true (by omega : bit - idx < count)]
      rfl
    · rw [decide_eq_false inside]
      by_cases before : bit < idx
      · rw [decide_eq_true before, Bool.not_true, Bool.and_false, Bool.false_and]
      · rw [decide_eq_false (by omega : ¬ bit - idx < count), Bool.and_false, Bool.and_false]

theorem blocksHere_eq {idx nrBlocks : Nat} (inside : idx < 32) (small : nrBlocks < 2147483648) :
    blocksHere idx nrBlocks = min nrBlocks (32 - idx) := by
  simp only [blocksHere, show bpi = 32 from rfl]
  rw [Nat.mod_eq_of_lt (by omega : nrBlocks < 4294967296),
    Nat.mod_eq_of_lt (by omega : nrBlocks + idx < 4294967296)]
  split <;> omega

section Rounds

variable {func : BitVec 32 → BitVec 32 → Option (Bool × BitVec 32)} {bitmap : List (BitVec 32)}
variable {poolIdx idx nrBlocks : Nat}

/-- One round of `blocks_iter` inside a word. -/
theorem blocksIter_pass (within : idx < 32) (more : 0 < nrBlocks) (small : nrBlocks < 2147483648)
    (inside : poolIdx < bitmap.length) {word : BitVec 32}
    (passed : func bitmap[poolIdx] (blocksMask wild (min nrBlocks (32 - idx)) idx) =
      some (true, word)) :
    blocksIter wild func bitmap poolIdx idx nrBlocks =
      blocksIter wild func (bitmap.set poolIdx word) (poolIdx + 1) 0
        (nrBlocks - min nrBlocks (32 - idx)) := by
  have rest : (nrBlocks + 18446744073709551616 - min nrBlocks (32 - idx)) %
      18446744073709551616 = nrBlocks - min nrBlocks (32 - idx) := by
    omega
  rw [blocksIter, if_neg (by omega), dif_pos inside]
  simp only [blocksHere_eq within small, rest, passed]

theorem blocksIter_stop (more : 0 < nrBlocks) (inside : poolIdx < bitmap.length)
    {word : BitVec 32}
    (stopped : func bitmap[poolIdx] (blocksMask wild (blocksHere idx nrBlocks) idx) =
      some (false, word)) :
    blocksIter wild func bitmap poolIdx idx nrBlocks = some (false, bitmap) := by
  rw [blocksIter, if_neg (by omega), dif_pos inside]
  simp only [stopped]

theorem blocksIter_outside (more : 0 < nrBlocks) (outside : ¬ poolIdx < bitmap.length) :
    blocksIter wild func bitmap poolIdx idx nrBlocks = some (false, bitmap) := by
  rw [blocksIter, if_neg (by omega), dif_neg outside]

end Rounds

/-! ## What the iterations do to the bits -/

theorem bitAt_word {bitmap : List (BitVec 32)} {poolIdx : Nat} (inside : poolIdx < bitmap.length)
    {bit : Nat} (below : bit < 32) :
    bitAt bitmap (32 * poolIdx + bit) = bitmap[poolIdx].getLsbD bit :=
  bitAt_of_word (List.getElem?_eq_getElem inside) below

/-- A free run lies inside the pool, and none of its blocks is taken. -/
theorem blocksFree_sound {bitmap : List (BitVec 32)} {nrBlocks : Nat} :
    ∀ {poolIdx idx : Nat}, idx < 32 → nrBlocks < 2147483648 → 0 < nrBlocks →
      blocksFree wild bitmap poolIdx idx nrBlocks = true →
      32 * poolIdx + idx + nrBlocks ≤ 32 * bitmap.length ∧
        ∀ block, 32 * poolIdx + idx ≤ block → block < 32 * poolIdx + idx + nrBlocks →
          bitAt bitmap block = false := by
  induction nrBlocks using Nat.strong_induction_on with
  | _ nrBlocks shorter =>
    intro poolIdx idx within small more free
    by_cases inside : poolIdx < bitmap.length
    · by_cases clear : bitmap[poolIdx] &&& blocksMask wild (min nrBlocks (32 - idx)) idx = 0#32
      · have here : ∀ block, 32 * poolIdx + idx ≤ block →
            block < 32 * poolIdx + idx + min nrBlocks (32 - idx) → bitAt bitmap block = false := by
          intro block after before
          obtain ⟨bit, rfl⟩ := Nat.exists_eq_add_of_le (show 32 * poolIdx ≤ block by omega)
          have masked := (BitVec.zero_iff_eq_false.mp clear) bit
          rw [BitVec.getLsbD_and, getLsbD_blocksMask wild (by omega) (by omega),
            decide_eq_true (by omega), Bool.and_true] at masked
          rw [bitAt_word inside (by omega), masked]
        have passed : maskCmp bitmap[poolIdx] (blocksMask wild (min nrBlocks (32 - idx)) idx) =
            some (true, bitmap[poolIdx]) := by
          rw [maskCmp, clear]
          rfl
        rw [blocksFree, blocksIter_pass wild within more small inside passed,
          List.set_getElem_self] at free
        by_cases last : nrBlocks ≤ 32 - idx
        · rw [Nat.min_eq_left last] at here
          exact ⟨by omega, here⟩
        · change blocksFree wild bitmap (poolIdx + 1) 0 _ = true at free
          have rest := shorter _ (by omega) (by omega) (by omega) (by omega) free
          refine ⟨by omega, ?_⟩
          intro block after before
          by_cases first : block < 32 * poolIdx + 32
          · exact here block after (by omega)
          · exact rest.2 block (by omega) (by omega)
      · have stopped : maskCmp bitmap[poolIdx] (blocksMask wild (blocksHere idx nrBlocks) idx) =
            some (false, bitmap[poolIdx]) := by
          rw [blocksHere_eq within small, maskCmp, beq_eq_false_iff_ne.mpr clear]
        rw [blocksFree, blocksIter_stop wild more inside stopped] at free
        cases free
    · rw [blocksFree, blocksIter_outside wild more inside] at free
      cases free

/-- A run of blocks that are not taken is free. -/
theorem blocksFree_complete {bitmap : List (BitVec 32)} {nrBlocks : Nat} :
    ∀ {poolIdx idx : Nat}, idx < 32 → nrBlocks < 2147483648 →
      32 * poolIdx + idx + nrBlocks ≤ 32 * bitmap.length →
      (∀ block, 32 * poolIdx + idx ≤ block → block < 32 * poolIdx + idx + nrBlocks →
        bitAt bitmap block = false) →
      blocksFree wild bitmap poolIdx idx nrBlocks = true := by
  induction nrBlocks using Nat.strong_induction_on with
  | _ nrBlocks shorter =>
    intro poolIdx idx within small room clear
    by_cases done : nrBlocks = 0
    · rw [done, blocksFree_zero]
    · have inside : poolIdx < bitmap.length := by omega
      have passed : maskCmp bitmap[poolIdx] (blocksMask wild (min nrBlocks (32 - idx)) idx) =
          some (true, bitmap[poolIdx]) := by
        have masked : bitmap[poolIdx] &&& blocksMask wild (min nrBlocks (32 - idx)) idx = 0#32 := by
          rw [BitVec.zero_iff_eq_false]
          intro bit
          rw [BitVec.getLsbD_and, getLsbD_blocksMask wild (by omega) (by omega)]
          by_cases among : idx ≤ bit ∧ bit < idx + min nrBlocks (32 - idx)
          · rw [← bitAt_word inside (by omega), clear _ (by omega) (by omega), Bool.false_and]
          · rw [decide_eq_false among, Bool.and_false]
        rw [maskCmp, masked]
        rfl
      rw [blocksFree, blocksIter_pass wild within (by omega) small inside passed,
        List.set_getElem_self]
      refine shorter _ (by omega) (by omega) (by omega) (by omega) ?_
      intro block after before
      exact clear block (by omega) (by omega)

/-- The function writes `target` under the mask where the opposite stands. -/
def Writes (func : BitVec 32 → BitVec 32 → Option (Bool × BitVec 32)) (target : Bool) : Prop :=
  ∀ word mask, (∀ bit, mask.getLsbD bit = true → word.getLsbD bit = !target) →
    ∃ written, func word mask = some (true, written) ∧
      ∀ bit, written.getLsbD bit = if mask.getLsbD bit then target else word.getLsbD bit

theorem maskSet_writes : Writes maskSet true := by
  intro word mask opposite
  have clear : word &&& mask = 0#32 := by
    rw [BitVec.zero_iff_eq_false]
    intro bit
    rw [BitVec.getLsbD_and]
    cases masked : mask.getLsbD bit with
    | false => rw [Bool.and_false]
    | true => rw [opposite bit masked, Bool.not_true, Bool.false_and]
  refine ⟨word ||| mask, by rw [maskSet, if_pos clear], ?_⟩
  intro bit
  rw [BitVec.getLsbD_or]
  cases mask.getLsbD bit with
  | false => rw [Bool.or_false, if_neg Bool.false_ne_true]
  | true => rw [Bool.or_true, if_pos rfl]

theorem maskClear_writes : Writes maskClear false := by
  intro word mask opposite
  have present : word &&& mask = mask := by
    apply BitVec.eq_of_getLsbD_eq
    intro bit inside
    rw [BitVec.getLsbD_and]
    cases masked : mask.getLsbD bit with
    | false => rw [Bool.and_false]
    | true => rw [opposite bit masked, Bool.not_false, Bool.and_true]
  refine ⟨word &&& ~~~mask, by rw [maskClear, if_pos present], ?_⟩
  intro bit
  rw [BitVec.getLsbD_and, BitVec.getLsbD_not]
  by_cases inside : bit < 32
  · rw [decide_eq_true inside, Bool.true_and]
    cases mask.getLsbD bit with
    | false => rw [Bool.not_false, Bool.and_true, if_neg Bool.false_ne_true]
    | true => rw [Bool.not_true, Bool.and_false, if_pos rfl]
  · rw [BitVec.getLsbD_of_ge word bit (by omega), BitVec.getLsbD_of_ge mask bit (by omega)]
    rfl

/-- A writer over a run of blocks changes these blocks and no others. -/
theorem blocksIter_writes {func : BitVec 32 → BitVec 32 → Option (Bool × BitVec 32)}
    {target : Bool} (writes : Writes func target) {nrBlocks : Nat} :
    ∀ {bitmap : List (BitVec 32)} {poolIdx idx : Nat}, idx < 32 → nrBlocks < 2147483648 →
      32 * poolIdx + idx + nrBlocks ≤ 32 * bitmap.length →
      (∀ block, 32 * poolIdx + idx ≤ block → block < 32 * poolIdx + idx + nrBlocks →
        bitAt bitmap block = !target) →
      ∃ written, blocksIter wild func bitmap poolIdx idx nrBlocks = some (true, written) ∧
        written.length = bitmap.length ∧
        ∀ block, bitAt written block =
          if 32 * poolIdx + idx ≤ block ∧ block < 32 * poolIdx + idx + nrBlocks then target
          else bitAt bitmap block := by
  induction nrBlocks using Nat.strong_induction_on with
  | _ nrBlocks shorter =>
    intro bitmap poolIdx idx within small room opposite
    by_cases done : nrBlocks = 0
    · refine ⟨bitmap, by rw [blocksIter, if_pos done], rfl, ?_⟩
      intro block
      rw [if_neg (by omega)]
    · have inside : poolIdx < bitmap.length := by omega
      have mask := getLsbD_blocksMask wild (show idx + min nrBlocks (32 - idx) ≤ 32 by omega)
        (by omega)
      obtain ⟨word, passed, bits⟩ := writes bitmap[poolIdx]
        (blocksMask wild (min nrBlocks (32 - idx)) idx) (by
          intro bit masked
          rw [mask bit, decide_eq_true_eq] at masked
          rw [← bitAt_word inside (by omega)]
          exact opposite _ (by omega) (by omega))
      have here : ∀ block, bitAt (bitmap.set poolIdx word) block =
          if 32 * poolIdx + idx ≤ block ∧ block < 32 * poolIdx + idx + min nrBlocks (32 - idx)
          then target else bitAt bitmap block := by
        intro block
        rw [bitAt_set inside]
        by_cases same : block / 32 = poolIdx
        · have parts : block = 32 * poolIdx + block % 32 := by omega
          rw [if_pos same, bits, mask, ← bitAt_word inside (by omega), ← parts]
          by_cases written : idx ≤ block % 32 ∧ block % 32 < idx + min nrBlocks (32 - idx)
          · rw [decide_eq_true written, if_pos rfl, if_pos (by omega)]
          · rw [decide_eq_false written, if_neg Bool.false_ne_true, if_neg (by omega)]
        · rw [if_neg same, if_neg (by omega)]
      obtain ⟨written, result, length, after⟩ := shorter (nrBlocks - min nrBlocks (32 - idx))
        (by omega) (show 0 < 32 by omega) (by omega)
        (show 32 * (poolIdx + 1) + 0 + _ ≤ 32 * (bitmap.set poolIdx word).length by
          rw [List.length_set]
          omega)
        (by
          intro block later before
          rw [here, if_neg (by omega)]
          exact opposite block (by omega) (by omega))
      refine ⟨written, ?_, ?_, ?_⟩
      · rw [blocksIter_pass wild within (by omega) small inside passed, result]
      · rw [length, List.length_set]
      · intro block
        rw [after, here]
        by_cases run : 32 * poolIdx + idx ≤ block ∧ block < 32 * poolIdx + idx + nrBlocks
        · rw [if_pos run]
          by_cases first : block < 32 * (poolIdx + 1)
          · rw [if_neg (by omega), if_pos (by omega)]
          · rw [if_pos (by omega)]
        · rw [if_neg run, if_neg (by omega), if_neg (by omega)]

/-! ## Where a run is looked for -/

/-- One round of the test, also for a run that does not start in its word. -/
theorem blocksFree_round {bitmap : List (BitVec 32)} {poolIdx idx nrBlocks : Nat}
    (more : 0 < nrBlocks) (free : blocksFree wild bitmap poolIdx idx nrBlocks = true) :
    poolIdx < bitmap.length ∧
      blocksFree wild bitmap (poolIdx + 1) 0
        ((nrBlocks + 18446744073709551616 - blocksHere idx nrBlocks) % 18446744073709551616) =
          true := by
  by_cases inside : poolIdx < bitmap.length
  · refine ⟨inside, ?_⟩
    rw [blocksFree, blocksIter, if_neg (by omega), dif_pos inside] at free
    simp only [maskCmp] at free
    cases clear : bitmap[poolIdx] &&& blocksMask wild (blocksHere idx nrBlocks) idx == 0#32 with
    | false =>
      rw [clear] at free
      cases free
    | true =>
      rw [clear] at free
      dsimp only at free
      rw [List.set_getElem_self] at free
      exact free
  · rw [blocksFree, blocksIter_outside wild more inside] at free
    cases free

/-- A run with more blocks than there are is not free: no round takes more than
one word, and the bitmap ends first. -/
theorem blocksFree_overlong {bitmap : List (BitVec 32)} (words : Nat) :
    ∀ {poolIdx nrBlocks : Nat}, bitmap.length = poolIdx + words → 32 * words < nrBlocks →
      nrBlocks < 18446744073709551616 → blocksFree wild bitmap poolIdx 0 nrBlocks = false := by
  induction words with
  | zero =>
    intro poolIdx nrBlocks atEnd long small
    rw [blocksFree, blocksIter_outside wild (by omega) (by omega)]
    rfl
  | succ words further =>
    intro poolIdx nrBlocks inside long small
    rw [Bool.eq_false_iff]
    intro free
    have rest := (blocksFree_round wild (by omega) free).2
    have taken : blocksHere 0 nrBlocks ≤ 32 ∧ blocksHere 0 nrBlocks ≤ nrBlocks := by
      simp only [blocksHere, show bpi = 32 from rfl]
      split <;> omega
    rw [further (by omega) (by omega) (Nat.mod_lt _ (by omega))] at rest
    cases rest

/-- A run that is said to start behind its word is not free: what is left after
the first round has gone below zero. -/
theorem blocksFree_beyond {bitmap : List (BitVec 32)} (short : bitmap.length < 134217728)
    {poolIdx idx nrBlocks : Nat} (beyond : 33 ≤ idx) (near : idx < 128) (more : 0 < nrBlocks)
    (small : nrBlocks < 2147483648) : blocksFree wild bitmap poolIdx idx nrBlocks = false := by
  rw [Bool.eq_false_iff]
  intro free
  obtain ⟨inside, rest⟩ := blocksFree_round wild more free
  have taken : blocksHere idx nrBlocks = 4294967328 - idx := by
    simp only [blocksHere, show bpi = 32 from rfl]
    rw [if_pos (by omega)]
    omega
  rw [taken, blocksFree_overlong wild (bitmap.length - (poolIdx + 1)) (by omega) (by omega)
    (Nat.mod_lt _ (by omega))] at rest
  cases rest

theorem ffs64_zero : ffs64 0#64 = 63 := by decide

/-- The sign of the word fills up what is shifted in. -/
theorem getLsbD_shifted (word : BitVec 32) (start : Nat) {bit : Nat} (below : bit < 64) :
    ((word.sshiftRight start).signExtend 64).getLsbD bit = word.getLsbD (min (start + bit) 31) := by
  rw [BitVec.getLsbD_signExtend, decide_eq_true below, Bool.true_and, BitVec.msb_sshiftRight,
    BitVec.msb_eq_getLsbD_last, BitVec.getLsbD_sshiftRight]
  by_cases inside : start + bit < 32
  · rw [if_pos (by omega), if_pos inside, decide_eq_false (by omega), Nat.min_eq_left (by omega)]
    rfl
  · rw [Nat.min_eq_right (by omega)]
    by_cases low : bit < 32
    · rw [if_pos low, if_neg inside, decide_eq_false (by omega), BitVec.msb_eq_getLsbD_last]
      rfl
    · rw [if_neg low]

/-- The next zero lies in the word, or far beyond its end. -/
theorem findNextZero_range {word : BitVec 32} {start : Nat} (below : start < 32)
    (room : word ≠ BitVec.allOnes 32) :
    findNextZero word start < 32 ∨
      (64 ≤ findNextZero word start ∧ findNextZero word start < 128) := by
  by_cases filled : ~~~((word.sshiftRight start).signExtend 64) = 0#64
  · right
    rw [findNextZero, ffz, filled, ffs64_zero]
    have later : start ≠ 0 := by
      rintro rfl
      apply room
      rw [eq_allOnes_iff]
      intro bit inside
      have present := BitVec.zero_iff_eq_false.mp filled bit
      rw [BitVec.getLsbD_not, getLsbD_shifted word 0 (by omega), Nat.zero_add,
        Nat.min_eq_left (by omega), decide_eq_true (by omega), Bool.true_and] at present
      rwa [Bool.not_eq_false'] at present
    omega
  · left
    obtain ⟨position, inside, lowest⟩ := exists_lowest _ filled
    rw [findNextZero, ffz, ffs64_eq_of_lowest lowest]
    by_contra beyond
    have clear := lowest.1
    have earlier := lowest.2 (31 - start) (by omega)
    rw [BitVec.getLsbD_not, getLsbD_shifted word start (by omega), decide_eq_true (by omega),
      Nat.min_eq_right (by omega)] at clear earlier
    rw [clear] at earlier
    cases earlier

/-- What the loop of `__smalloc_pool` finds is a free run inside the pool. -/
theorem findRun_sound {bitmap : List (BitVec 32)} (short : bitmap.length < 134217728)
    {nrBlocks : Nat} (more : 0 < nrBlocks) (small : nrBlocks < 2147483648) (i lastIdx : Nat)
    (start : lastIdx < 32) {place : Nat × Nat}
    (found : findRun wild bitmap nrBlocks i lastIdx = some place) :
    place.2 < 32 ∧ blocksFree wild bitmap place.1 place.2 nrBlocks = true := by
  induction i, lastIdx using findRun.induct wild bitmap nrBlocks with
  | case1 i lastIdx inside full next =>
    rw [findRun, dif_pos inside, if_pos full] at found
    exact next (by omega) found
  | case2 i lastIdx inside room idx free =>
    rw [findRun, dif_pos inside, if_neg room, dif_pos free, Option.some.injEq] at found
    subst found
    refine ⟨?_, free⟩
    rcases findNextZero_range start room with within | beyond
    · exact within
    · rw [blocksFree_beyond wild short (by omega) beyond.2 more small] at free
      cases free
  | case3 i lastIdx inside room idx taken near next =>
    rw [findRun, dif_pos inside, if_neg room, dif_neg taken, if_pos near] at found
    exact next near found
  | case4 i lastIdx inside room idx taken far next =>
    rw [findRun, dif_pos inside, if_neg room, dif_neg taken, if_neg far] at found
    exact next (by omega) found
  | case5 i lastIdx outside =>
    rw [findRun, dif_neg outside] at found
    cases found

theorem bitAt_of_full {bitmap : List (BitVec 32)} {word : Nat} (inside : word < bitmap.length)
    (full : bitmap[word] = BitVec.allOnes 32) {block : Nat} (among : block / 32 = word) :
    bitAt bitmap block = true := by
  have parts : block = 32 * word + block % 32 := by omega
  rw [parts, bitAt_word inside (by omega)]
  exact (eq_allOnes_iff _).mp full _ (by omega)

theorem full_of_bitAt {bitmap : List (BitVec 32)} {word : Nat} (inside : word < bitmap.length)
    (bits : ∀ block, block / 32 = word → bitAt bitmap block = true) :
    bitmap[word] = BitVec.allOnes 32 := by
  rw [eq_allOnes_iff]
  intro bit below
  rw [← bitAt_word inside below]
  exact bits _ (by omega)

/-- The search for a word with room ends at the first one, when there is one. -/
theorem findBestIndex_first {bitmap : List (BitVec 32)}
    (room : ∃ word ∈ bitmap, word ≠ BitVec.allOnes 32) (words : Nat) :
    ∀ i, bitmap.length = i + words + 1 → (∀ block < 32 * i, bitAt bitmap block = true) →
      ∃ best < bitmap.length, findBestIndex bitmap i = some best ∧
        ∀ block < 32 * best, bitAt bitmap block = true := by
  induction words with
  | zero =>
    intro i last before
    by_cases full : bitmap[i] = BitVec.allOnes 32
    · obtain ⟨word, member, free⟩ := room
      obtain ⟨place, inside, rfl⟩ := List.getElem_of_mem member
      refine absurd (full_of_bitAt inside ?_) free
      intro block among
      by_cases final : block / 32 = i
      · exact bitAt_of_full (by omega) full final
      · exact before block (by omega)
    · refine ⟨i, by omega, ?_, before⟩
      rw [findBestIndex, dif_pos (by omega), if_neg full]
  | succ words further =>
    intro i inside before
    by_cases full : bitmap[i] = BitVec.allOnes 32
    · rw [findBestIndex, dif_pos (by omega), if_pos full, if_neg (by omega)]
      refine further (i + 1) (by omega) ?_
      intro block below
      by_cases here : block / 32 = i
      · exact bitAt_of_full (by omega) full here
      · exact before block (by omega)
    · refine ⟨i, by omega, ?_, before⟩
      rw [findBestIndex, dif_pos (by omega), if_neg full]

end RaptorMark.Fio.Smalloc
