import RaptorMark.Fio.Axmap

/-!
# What the levels of an axmap say

`HoldsSet axmap set` is the invariant of the whole structure: a bit of level
`i` is set exactly when the set holds all the `64 ^ i` numbers the bit stands
for, and every level has the words for all the numbers below `nr_bits`.  A new
map represents the empty set, and setting a run of bits inside one word adds
the free part of the run to the set on every level at once.
-/

set_option autoImplicit false

namespace RaptorMark.Fio

open Lib.PackedBits

/-! ## Words -/

theorem ffsHalf_lowest (mask : BitVec 64) (half : Nat) (isMask : mask = lowMask 64 half)
    {search : Nat × BitVec 64} {position : Nat} (lowest : IsLowest search.2 position)
    (inside : position < 2 * half) :
    ∃ rest < half, IsLowest (ffsHalf mask half search).2 rest ∧
      (ffsHalf mask half search).1 + rest = search.1 + position := by
  have halved := lowest_halved half lowest
  rw [← isMask] at halved
  rw [ffsHalf]
  by_cases clear : search.2 &&& mask = 0#64
  · rw [if_pos clear] at halved ⊢
    exact ⟨position - half, by omega, halved.2, by omega⟩
  · rw [if_neg clear] at halved ⊢
    exact ⟨position, halved, lowest, rfl⟩

theorem ffsHalf_one (search : Nat × BitVec 64) :
    (ffsHalf 1#64 1 search).1 =
      if search.2 &&& 1#64 = 0#64 then search.1 + 1 else search.1 := by
  rw [ffsHalf]
  exact apply_ite Prod.fst _ _ _

theorem ffs64_eq_of_lowest {word : BitVec 64} {position : Nat} (lowest : IsLowest word position) :
    ffs64 word = position := by
  have inside : position < 64 := by
    by_contra beyond
    have present := lowest.1
    rw [BitVec.getLsbD_of_ge word position (by omega)] at present
    cases present
  have lowestStart : IsLowest (0, word).2 position := lowest
  obtain ⟨rest32, small32, lowest32, sum32⟩ :=
    ffsHalf_lowest 0xffffffff#64 32 rfl lowestStart inside
  obtain ⟨rest16, small16, lowest16, sum16⟩ := ffsHalf_lowest 0xffff#64 16 rfl lowest32 small32
  obtain ⟨rest8, small8, lowest8, sum8⟩ := ffsHalf_lowest 0xff#64 8 rfl lowest16 small16
  obtain ⟨rest4, small4, lowest4, sum4⟩ := ffsHalf_lowest 0xf#64 4 rfl lowest8 small8
  obtain ⟨rest2, small2, lowest2, sum2⟩ := ffsHalf_lowest 3#64 2 rfl lowest4 small4
  obtain ⟨rest1, small1, lowest1, sum1⟩ := ffsHalf_lowest 1#64 1 rfl lowest2 small2
  rw [ffs64, ← ffsHalf_one]
  omega

theorem ffz_not_eq_of_lowest {word : BitVec 64} {position : Nat} (lowest : IsLowest word position) :
    ffz (~~~word) = position := by
  rw [ffz, BitVec.not_not]
  exact ffs64_eq_of_lowest lowest

theorem bitMasks_eq {count : Nat} (small : count ≤ 64) :
    bitMasks[count]? = some (lowMask 64 count) := by
  have table : ∀ count : Fin 65, bitMasks[count.val]? = some (lowMask 64 count.val) := by decide
  exact table ⟨count, by omega⟩

theorem getLsbD_region (count bit index : Nat) :
    (lowMask 64 count <<< bit).getLsbD index =
      (decide (index < 64) && (decide (bit ≤ index) && decide (index < bit + count))) := by
  rw [BitVec.getLsbD_shiftLeft, getLsbD_lowMask]
  by_cases inside : index < 64
  · by_cases above : bit ≤ index
    · have shifted : index - bit < 64 := by omega
      have same : index - bit < count ↔ index < bit + count := by omega
      simp [inside, above, shifted, same]
    · simp [above]
  · simp [inside]

/-- The bits `writeBits` sets, and what the word tells the next level. -/
theorem writeBits_eq {al : AxmapLevel} {offset : Nat} {word : BitVec 64}
    (stored : al.map[offset]? = some word) {bit count : Nat} (data : AxmapSetData)
    (positive : 0 < count) (fits : bit + count ≤ 64)
    (free : ∀ step < count, word.getLsbD (bit + step) = false) :
    writeBits al offset bit count data =
      some (decide (word ||| lowMask 64 count <<< bit ≠ BitVec.allOnes 64),
        { al with map := al.map.set offset (word ||| lowMask 64 count <<< bit) },
        { nrBits := 1, setBits := if al.level = 0 then count else data.setBits }) := by
  have someBit : lowMask 64 count <<< bit ≠ 0#64 := by
    intro zero
    have lowest := congrArg (fun bits => bits.getLsbD bit) zero
    simp only [getLsbD_region, BitVec.getLsbD_zero] at lowest
    simp only [decide_eq_true (show bit < 64 by omega), Nat.le_refl, decide_true,
      decide_eq_true (show bit < bit + count by omega), Bool.and_self, Bool.true_eq_false] at lowest
  have disjoint : word &&& lowMask 64 count <<< bit = 0#64 := by
    rw [BitVec.zero_iff_eq_false]
    intro index
    rw [BitVec.getLsbD_and, getLsbD_region]
    by_cases inside : bit ≤ index ∧ index < bit + count
    · have clear := free (index - bit) (by omega)
      rw [Nat.add_sub_cancel' inside.1] at clear
      rw [clear, Bool.false_and]
    · by_cases above : bit ≤ index
      · have outside : ¬ index < bit + count := fun below => inside ⟨above, below⟩
        simp [outside]
      · simp [above]
  rw [writeBits, bitMasks_eq (by omega)]
  simp only [Option.bind_eq_bind, Option.bind_some, stored]
  rw [if_pos ⟨someBit, disjoint⟩]

theorem overlap_bit (word : BitVec 64) {bit count : Nat} (index : Nat) (fits : bit + count ≤ 64) :
    (word &&& lowMask 64 count <<< bit).getLsbD index = true ↔
      word.getLsbD index = true ∧ bit ≤ index ∧ index < bit + count := by
  rw [BitVec.getLsbD_and, getLsbD_region]
  constructor
  · intro both
    simp only [Bool.and_eq_true, decide_eq_true_eq] at both
    exact ⟨both.1, both.2.2⟩
  · intro ⟨present, above, below⟩
    simp only [present, decide_eq_true (show index < 64 by omega), decide_eq_true above,
      decide_eq_true below, Bool.and_self]

/-- A run that starts at a set bit, or is empty, changes nothing. -/
theorem axmapSetFn_busy {al : AxmapLevel} {offset : Nat} {word : BitVec 64}
    (stored : al.map[offset]? = some word) {bit count : Nat} (fits : bit + count ≤ 64)
    (busy : count = 0 ∨ word.getLsbD bit = true) :
    axmapSetFn al offset bit { nrBits := count, setBits := 0 } =
      some (true, al, { nrBits := count, setBits := 0 }) := by
  have size : blocksPerUnit = 64 := rfl
  have whole : min count (64 - bit) = count := by omega
  simp only [axmapSetFn, size, whole, bitMasks_eq (show count ≤ 64 by omega), stored,
    Option.bind_eq_bind, Option.bind_some]
  by_cases covered : word &&& lowMask 64 count <<< bit = lowMask 64 count <<< bit
  · rw [if_pos covered]
  · rw [if_neg covered]
    have positive : 0 < count := by
      by_contra zero
      apply covered
      obtain rfl : count = 0 := by omega
      simp [lowMask]
    have present := busy.resolve_left (by omega)
    have atBit := (overlap_bit word bit fits).mpr ⟨present, le_refl _, by omega⟩
    have some' : word &&& lowMask 64 count <<< bit ≠ 0#64 := by
      intro zero
      rw [zero, BitVec.getLsbD_zero] at atBit
      cases atBit
    have lowest : IsLowest (word &&& lowMask 64 count <<< bit) bit := by
      refine ⟨atBit, fun lower below => ?_⟩
      by_contra other
      have := (overlap_bit word _ fits).mp (Bool.not_eq_false _ ▸ other)
      omega
    rw [if_pos some', ffz_not_eq_of_lowest lowest, if_pos (Nat.sub_self bit)]

/-- A run that starts at a free bit is written up to the first bit that is set. -/
theorem axmapSetFn_free {al : AxmapLevel} {offset : Nat} {word : BitVec 64}
    (stored : al.map[offset]? = some word) {bit : Nat} (data : AxmapSetData)
    (positive : 0 < data.nrBits) (fits : bit + data.nrBits ≤ 64)
    (free : word.getLsbD bit = false) :
    ∃ count, 0 < count ∧ count ≤ data.nrBits ∧
      (∀ step < count, word.getLsbD (bit + step) = false) ∧
      (count < data.nrBits → word.getLsbD (bit + count) = true) ∧
      axmapSetFn al offset bit data = writeBits al offset bit count data := by
  have size : blocksPerUnit = 64 := rfl
  have whole : min data.nrBits (64 - bit) = data.nrBits := by omega
  simp only [axmapSetFn, size, whole, bitMasks_eq (show data.nrBits ≤ 64 by omega), stored,
    Option.bind_eq_bind, Option.bind_some]
  have uncovered : word &&& lowMask 64 data.nrBits <<< bit ≠ lowMask 64 data.nrBits <<< bit := by
    intro covered
    have atBit : (lowMask 64 data.nrBits <<< bit).getLsbD bit = true := by
      rw [getLsbD_region]
      simp only [decide_eq_true (show bit < 64 by omega), Nat.le_refl, decide_true,
        decide_eq_true (show bit < bit + data.nrBits by omega), Bool.and_self]
    rw [← covered, overlap_bit word _ fits, free] at atBit
    cases atBit.1
  rw [if_neg uncovered]
  by_cases overlapping : word &&& lowMask 64 data.nrBits <<< bit = 0#64
  · refine ⟨data.nrBits, positive, le_refl _, ?_, fun less => absurd less (lt_irrefl _), ?_⟩
    · intro step below
      by_contra present
      have atStep := (overlap_bit word (bit + step) fits).mpr
        ⟨Bool.not_eq_false _ ▸ present, by omega, by omega⟩
      rw [overlapping, BitVec.getLsbD_zero] at atStep
      cases atStep
    · rw [if_neg (not_not_intro overlapping)]
  · obtain ⟨position, -, lowest⟩ := exists_lowest _ overlapping
    have ⟨present, above, below⟩ := (overlap_bit word _ fits).mp lowest.1
    have beyond : bit < position := by
      rcases Nat.lt_or_eq_of_le above with less | same
      · exact less
      · rw [← same, free] at present
        cases present
    refine ⟨position - bit, by omega, by omega, ?_, ?_, ?_⟩
    · intro step inside
      by_contra taken
      have atStep := (overlap_bit word (bit + step) fits).mpr
        ⟨Bool.not_eq_false _ ▸ taken, by omega, by omega⟩
      rw [lowest.2 _ (by omega)] at atStep
      cases atStep
    · intro _
      rw [Nat.add_sub_cancel' above]
      exact present
    · rw [if_pos overlapping, ffz_not_eq_of_lowest lowest, if_neg (by omega)]

/-! ## Levels -/

/-- Every level from `height` on tells which blocks of its height the set fills. -/
def LevelsHold (set : Set Nat) (nrBits : Nat) : Nat → List AxmapLevel → Prop
  | _, [] => True
  | height, al :: above =>
      al.level = height ∧ al.map.length = blockCount nrBits (height + 1) ∧
        (∀ index, bitAt al.map index = true ↔ Full set height index) ∧
        LevelsHold set nrBits (height + 1) above

structure HoldsSet (axmap : Axmap) (set : Set Nat) : Prop where
  below : ∀ number ∈ set, number < axmap.nrBits
  someLevel : axmap.levels ≠ []
  levels : LevelsHold set axmap.nrBits 0 axmap.levels

theorem LevelsHold.congr {smaller larger : Set Nat} {nrBits : Nat} :
    ∀ {levels : List AxmapLevel} {height : Nat},
      (∀ more other, Full larger (height + more) other ↔ Full smaller (height + more) other) →
        LevelsHold smaller nrBits height levels → LevelsHold larger nrBits height levels := by
  intro levels
  induction levels with
  | nil => intro height _ _; trivial
  | cons al above ih =>
      intro height same ⟨level, size, bits, rest⟩
      refine ⟨level, size, fun index => ?_, ih (fun more other => ?_) rest⟩
      · rw [bits index]
        exact (same 0 index).symm
      · have shifted := same (1 + more) other
        rw [← Nat.add_assoc] at shifted
        exact shifted

/-- Between two sets, the blocks of one height that become full are the `count`
blocks from `index` on. -/
structure Filled (smaller larger : Set Nat) (height index count : Nat) : Prop where
  included : smaller ⊆ larger
  filled : ∀ step < count, Full larger height (index + step)
  elsewhere : ∀ number ∈ larger,
    (number / 64 ^ height < index ∨ index + count ≤ number / 64 ^ height) → number ∈ smaller

theorem Filled.full_iff {smaller larger : Set Nat} {height index count : Nat}
    (fill : Filled smaller larger height index count) (other : Nat) :
    Full larger height other ↔
      Full smaller height other ∨ index ≤ other ∧ other < index + count := by
  constructor
  · intro full
    by_cases inside : index ≤ other ∧ other < index + count
    · exact Or.inr inside
    · left
      intro number same
      apply fill.elsewhere number (full number same)
      omega
  · intro either
    rcases either with full | ⟨above, below⟩
    · exact full.mono fill.included
    · have filled := fill.filled (other - index) (by omega)
      rw [Nat.add_sub_cancel' above] at filled
      exact filled

/-- The level with a run of `count` bits set in the word that holds `index`. -/
def AxmapLevel.withRun (al : AxmapLevel) (word : BitVec 64) (index count : Nat) : AxmapLevel :=
  { al with map := al.map.set (index / 64) (word ||| lowMask 64 count <<< (index % 64)) }

theorem bitAt_withRun {al : AxmapLevel} {index count : Nat} {word : BitVec 64}
    (stored : al.map[index / 64]? = some word) (fits : index % 64 + count ≤ 64) (other : Nat) :
    bitAt (al.withRun word index count).map other = true ↔
      bitAt al.map other = true ∨ index ≤ other ∧ other < index + count := by
  obtain ⟨inside, -⟩ := List.getElem?_eq_some_iff.mp stored
  rw [AxmapLevel.withRun, bitAt_set inside]
  by_cases same : other / 64 = index / 64
  · have read := bitAt_of_word stored (Nat.mod_lt other (by decide : 0 < 64))
    have position : 64 * (index / 64) + other % 64 = other := by omega
    rw [position] at read
    rw [if_pos same, BitVec.getLsbD_or, getLsbD_region, read, Bool.or_eq_true]
    simp only [Bool.and_eq_true, decide_eq_true_eq]
    have remainder : other % 64 < 64 := Nat.mod_lt other (by decide)
    constructor
    · rintro (old | ⟨_, _, _⟩)
      · exact Or.inl old
      · right
        omega
    · rintro (old | ⟨_, _⟩)
      · exact Or.inl old
      · right
        omega
  · rw [if_neg same]
    constructor
    · exact Or.inl
    · rintro (old | ⟨_, _⟩)
      · exact old
      · omega

theorem axmapSetFn_run {al : AxmapLevel} {index : Nat} {word : BitVec 64}
    (stored : al.map[index / 64]? = some word) {asked : Nat} (setBits : Nat) (positive : 0 < asked)
    (fits : index % 64 + asked ≤ 64) (free : bitAt al.map index = false) :
    ∃ count, 0 < count ∧ count ≤ asked ∧
      (∀ step < count, bitAt al.map (index + step) = false) ∧
      (count < asked → bitAt al.map (index + count) = true) ∧
      axmapSetFn al (index / 64) (index % 64) { nrBits := asked, setBits } =
        some (decide (word ||| lowMask 64 count <<< (index % 64) ≠ BitVec.allOnes 64),
          al.withRun word index count,
          { nrBits := 1, setBits := if al.level = 0 then count else setBits }) := by
  have read : ∀ step, index % 64 + step < 64 →
      word.getLsbD (index % 64 + step) = bitAt al.map (index + step) := by
    intro step inside
    rw [← bitAt_of_word stored inside, ← Nat.add_assoc, Nat.div_add_mod]
  have firstFree : word.getLsbD (index % 64) = false := by
    have first := read 0 (by omega)
    rw [Nat.add_zero, Nat.add_zero, free] at first
    exact first
  obtain ⟨count, atLeast, atMost, clear, stop, written⟩ :=
    axmapSetFn_free stored { nrBits := asked, setBits } positive fits firstFree
  have atMost : count ≤ asked := atMost
  refine ⟨count, atLeast, atMost, ?_, ?_, ?_⟩
  · intro step below
    rw [← read step (by omega)]
    exact clear step below
  · intro less
    rw [← read count (by omega)]
    exact stop less
  · rw [written, writeBits_eq stored _ atLeast (by omega) clear]
    rfl

/-- A word of a level is all ones when the set fills the block above it. -/
theorem word_allOnes_iff {map : List (BitVec 64)} {set : Set Nat} {height offset : Nat}
    {word : BitVec 64} (stored : map[offset]? = some word)
    (bits : ∀ index, bitAt map index = true ↔ Full set height index) :
    word = BitVec.allOnes 64 ↔ Full set (height + 1) offset := by
  rw [eq_allOnes_iff, full_succ]
  constructor
  · intro whole bit inside
    rw [← bits, bitAt_of_word stored inside]
    exact whole bit inside
  · intro whole bit inside
    rw [← bitAt_of_word stored inside, bits]
    exact whole bit inside

/-! ## The walk upwards -/

theorem shift_unit (index : Nat) : index >>> unitShift = index / 64 := by
  rw [unitShift, Nat.shiftRight_eq_div_pow]

theorem mask_unit (index : Nat) : index &&& blocksPerUnitMask = index % 64 := by
  have mask : blocksPerUnitMask = 2 ^ 6 - 1 := rfl
  rw [mask, Nat.and_two_pow_sub_one_eq_mod]

theorem unit_guarded (index : Nat) : (if index ≠ 0 then index / 64 else index) = index / 64 := by
  by_cases zero : index = 0
  · rw [zero, if_neg (not_not_intro rfl)]
  · rw [if_pos zero]

/-- One level of the walk: the run is written, and the walk ends here or goes on
with the bit of the word that has become full. -/
theorem handler_written {set larger : Set Nat} {nrBits height index count : Nat}
    {al : AxmapLevel} {above : List AxmapLevel} {data data' : AxmapSetData} {word : BitVec 64}
    (represents : LevelsHold set nrBits height (al :: above))
    (fill : Filled set larger height index count) (fits : index % 64 + count ≤ 64)
    (stored : al.map[index / 64]? = some word)
    (written : axmapSetFn al (index / 64) (index % 64) data =
      some (decide (word ||| lowMask 64 count <<< (index % 64) ≠ BitVec.allOnes 64),
        al.withRun word index count, data'))
    (carry : Full larger (height + 1) (index / 64) →
      ∃ done next, axmapHandler axmapSetFn above (index / 64) data' = some (done, next, data') ∧
        LevelsHold larger nrBits (height + 1) next) :
    ∃ done next, axmapHandler axmapSetFn (al :: above) index data = some (done, next, data') ∧
      next ≠ [] ∧ LevelsHold larger nrBits height next := by
  obtain ⟨level, size, bits, rest⟩ := represents
  obtain ⟨inside, -⟩ := List.getElem?_eq_some_iff.mp stored
  have newBits : ∀ other,
      bitAt (al.withRun word index count).map other = true ↔ Full larger height other := by
    intro other
    rw [bitAt_withRun stored fits, fill.full_iff, bits]
  have newSize : (al.withRun word index count).map.length = blockCount nrBits (height + 1) := by
    rw [AxmapLevel.withRun, List.length_set, size]
  have newWord := word_allOnes_iff (List.getElem?_set_self inside) newBits
  by_cases whole : word ||| lowMask 64 count <<< (index % 64) = BitVec.allOnes 64
  · obtain ⟨done, next, walked, nextRepresents⟩ := carry (newWord.mp whole)
    refine ⟨done, al.withRun word index count :: next, ?_, List.cons_ne_nil _ _, level, newSize, newBits,
      nextRepresents⟩
    simp only [axmapHandler, shift_unit, mask_unit, unit_guarded, written, Option.bind_eq_bind,
      Option.bind_some, decide_eq_false (not_not_intro whole), Bool.false_eq_true, if_false,
      walked]
  · have same : ∀ more other,
        Full larger (height + 1 + more) other ↔ Full set (height + 1 + more) other := by
      apply full_congr_above fill.included (mt newWord.mpr whole)
      intro number member apart
      apply fill.elsewhere number member
      rw [div_pow_succ] at apart
      omega
    refine ⟨true, al.withRun word index count :: above, ?_, List.cons_ne_nil _ _, level, newSize, newBits,
      rest.congr same⟩
    simp only [axmapHandler, shift_unit, mask_unit, written, Option.bind_eq_bind,
      Option.bind_some, decide_eq_true whole, if_true]

/-- Above level zero the walk sets one bit, that of a block the set has just
filled, and keeps the count of level zero. -/
theorem handler_carry {set larger : Set Nat} {nrBits : Nat} :
    ∀ (levels : List AxmapLevel) (height index setBits : Nat), 0 < height →
      LevelsHold set nrBits height levels → 64 ^ height * index < nrBits →
      ¬ Full set height index → Filled set larger height index 1 →
      ∃ done next,
        axmapHandler axmapSetFn levels index { nrBits := 1, setBits } =
          some (done, next, { nrBits := 1, setBits }) ∧
        LevelsHold larger nrBits height next := by
  intro levels
  induction levels with
  | nil =>
      intro height index setBits _ _ _ _ _
      exact ⟨false, [], rfl, trivial⟩
  | cons al above ih =>
      intro height index setBits positive represents inside missing fill
      obtain ⟨level, size, bits, rest⟩ := represents
      have blockInside : 64 ^ (height + 1) * (index / 64) < nrBits := by
        refine lt_of_le_of_lt ?_ inside
        rw [Nat.pow_succ, Nat.mul_assoc]
        exact Nat.mul_le_mul_left _ (Nat.mul_div_le index 64)
      have offsetInside : index / 64 < al.map.length := by
        rw [size, lt_blockCount_iff]
        exact blockInside
      have stored := List.getElem?_eq_getElem offsetInside
      have free : bitAt al.map index = false :=
        Bool.eq_false_iff.mpr (mt (bits index).mp missing)
      obtain ⟨count, atLeast, atMost, -, -, written⟩ :=
        axmapSetFn_run stored setBits Nat.one_pos (by omega) free
      obtain rfl : count = 1 := by omega
      rw [if_neg (by omega)] at written
      obtain ⟨done, next, walked, -, nextRepresents⟩ :=
        handler_written ⟨level, size, bits, rest⟩ fill (by omega) stored written fun full =>
          ih (height + 1) (index / 64) setBits (by omega) rest blockInside
            (fun whole => missing (Full.part 1 (by rwa [Nat.pow_one])))
            { included := fill.included
              filled := fun step below => by
                obtain rfl : step = 0 := by omega
                exact full
              elsewhere := fun number member apart => by
                apply fill.elsewhere number member
                rw [div_pow_succ] at apart
                omega }
      exact ⟨done, next, walked, nextRepresents⟩

end RaptorMark.Fio
