import RaptorMark.Fio.AxmapOperations

/-!
# The search for a free bit

`axmap_find_first_free` walks the levels downwards.  What it knows after a
level is that every free number lies in a block from `index` on; at level zero
the block is the number.  `axmap_next_free` looks into one word of level zero
first and wraps around at the end of the map: it returns the next free number
in cyclic order.
-/

set_option autoImplicit false

namespace RaptorMark.Fio

open Lib.PackedBits

/-! ## One level -/

/-- The first clear bit of a row of words at or after `start`, if it has one. -/
def FirstClear (map : List (BitVec 64)) (start : Nat) : Option Nat → Prop
  | some index => start ≤ index ∧ index < 64 * map.length ∧ bitAt map index = false ∧
      ∀ other, start ≤ other → other < index → bitAt map other = true
  | none => ∀ other, start ≤ other → other < 64 * map.length → bitAt map other = true

theorem clear_bit (word : BitVec 64) (bit index : Nat) :
    (~~~lowMask 64 bit &&& ~~~word).getLsbD index = true ↔
      index < 64 ∧ bit ≤ index ∧ word.getLsbD index = false := by
  rw [BitVec.getLsbD_and, BitVec.getLsbD_not, BitVec.getLsbD_not, getLsbD_lowMask]
  by_cases inside : index < 64
  · simp [inside]
  · simp [inside]

theorem bitAt_in_word {map : List (BitVec 64)} {offset : Nat} {word : BitVec 64}
    (stored : map[offset]? = some word) {other : Nat} (above : 64 * offset ≤ other)
    (below : other < 64 * (offset + 1)) : bitAt map other = word.getLsbD (other - 64 * offset) := by
  have read := bitAt_of_word stored (show other - 64 * offset < 64 by omega)
  rw [Nat.add_sub_cancel' above] at read
  exact read

/-- The word that holds the start has a clear bit from there on. -/
theorem firstClear_word {map : List (BitVec 64)} {offset : Nat} {word : BitVec 64}
    (stored : map[offset]? = some word) {bit : Nat}
    (clears : ~~~lowMask 64 bit &&& ~~~word ≠ 0#64) :
    FirstClear map (64 * offset + bit)
      (some ((offset <<< unitShift) + ffz (~~~(~~~lowMask 64 bit &&& ~~~word)))) := by
  obtain ⟨inside, -⟩ := List.getElem?_eq_some_iff.mp stored
  obtain ⟨position, -, lowest⟩ := exists_lowest _ clears
  have ⟨small, above, clear⟩ := (clear_bit word bit position).mp lowest.1
  have shifted : offset <<< unitShift = 64 * offset := by
    rw [unitShift, Nat.shiftLeft_eq, Nat.mul_comm]
  rw [ffz_not_eq_of_lowest lowest, shifted]
  refine ⟨by omega, by omega, ?_, ?_⟩
  · rw [bitAt_of_word stored small]
    exact clear
  · intro other after before
    rw [bitAt_in_word stored (by omega) (by omega)]
    by_contra missing
    have atOther := (clear_bit word bit (other - 64 * offset)).mpr
      ⟨by omega, by omega, Bool.not_eq_true _ ▸ missing⟩
    rw [lowest.2 _ (by omega)] at atOther
    cases atOther

/-- It has none, so the search goes on with the next word. -/
theorem firstClear_skip {map : List (BitVec 64)} {offset : Nat} {word : BitVec 64}
    (stored : map[offset]? = some word) {bit : Nat} (small : bit < 64)
    (noClear : ~~~lowMask 64 bit &&& ~~~word = 0#64) {found : Option Nat}
    (rest : FirstClear map (64 * (offset + 1)) found) :
    FirstClear map (64 * offset + bit) found := by
  have skipped : ∀ other, 64 * offset + bit ≤ other → other < 64 * (offset + 1) →
      bitAt map other = true := by
    intro other after before
    rw [bitAt_in_word stored (by omega) before]
    by_contra missing
    have atOther := (clear_bit word bit (other - 64 * offset)).mpr
      ⟨by omega, by omega, Bool.not_eq_true _ ▸ missing⟩
    rw [noClear, BitVec.getLsbD_zero] at atOther
    cases atOther
  have extend : ∀ bound, (∀ other, 64 * (offset + 1) ≤ other → other < bound →
      bitAt map other = true) →
      ∀ other, 64 * offset + bit ≤ other → other < bound → bitAt map other = true := by
    intro bound later other after before
    by_cases early : other < 64 * (offset + 1)
    · exact skipped other after early
    · exact later other (by omega) before
  cases found with
  | none => exact extend _ rest
  | some index =>
      obtain ⟨above, inside, clear, before⟩ := rest
      exact ⟨by omega, inside, clear, extend index before⟩

theorem scanWords_spec {map : List (BitVec 64)} :
    ∀ (words : List (BitVec 64)) (offset : Nat), map.drop offset = words →
      FirstClear map (64 * offset) (scanWords words offset) := by
  intro words
  induction words with
  | nil =>
      intro offset ends other above inside
      have : map.length ≤ offset := List.drop_eq_nil_iff.mp ends
      omega
  | cons word rest ih =>
      intro offset starts
      have stored : map[offset]? = some word := by
        have first := congrArg List.head? starts
        rwa [List.head?_drop] at first
      have later : map.drop (offset + 1) = rest := by
        rw [← List.tail_drop, starts, List.tail_cons]
      have whole : ~~~lowMask 64 0 &&& ~~~word = ~~~word := by
        rw [show ~~~lowMask 64 0 = BitVec.allOnes 64 from rfl, BitVec.allOnes_and]
      by_cases clears : ~~~word ≠ 0#64
      · rw [scanWords, if_pos clears]
        have found := firstClear_word stored (by rwa [whole] : ~~~lowMask 64 0 &&& ~~~word ≠ 0#64)
        rwa [whole, Nat.add_zero] at found
      · rw [scanWords, if_neg clears]
        have skipped := firstClear_skip stored (by decide : 0 < 64)
          (whole.trans (not_not.mp clears)) (ih (offset + 1) later)
        rwa [Nat.add_zero] at skipped

theorem firstFreeInLevel_spec {al : AxmapLevel} {index : Nat}
    (inside : index / 64 < al.map.length) :
    ∃ found, firstFreeInLevel al (index / 64) (index % 64) = some found ∧
      FirstClear al.map index found := by
  have small : index % 64 < 64 := Nat.mod_lt index (by decide)
  have stored := List.getElem?_eq_getElem inside
  have position : 64 * (index / 64) + index % 64 = index := Nat.div_add_mod index 64
  simp only [firstFreeInLevel, bitMasks_eq (Nat.le_of_lt small), stored, Option.bind_eq_bind,
    Option.bind_some]
  by_cases clears : ~~~lowMask 64 (index % 64) &&& ~~~al.map[index / 64] ≠ 0#64
  · rw [if_pos clears]
    have found := firstClear_word stored clears
    rw [position] at found
    exact ⟨_, rfl, found⟩
  · rw [if_neg clears]
    have skipped := firstClear_skip stored small (not_not.mp clears)
      (scanWords_spec _ (index / 64 + 1) rfl)
    rw [position] at skipped
    exact ⟨_, rfl, skipped⟩

/-! ## The walk downwards -/

/-- The answer of a search from `bitNr` to the end of the map. -/
def FirstFree (set : Set Nat) (nrBits bitNr answer : Nat) : Prop :=
  (answer = noBit ∧ ∀ number, bitNr ≤ number → number < nrBits → number ∈ set) ∨
    (bitNr ≤ answer ∧ answer < nrBits ∧ answer ∉ set ∧
      ∀ number, bitNr ≤ number → number < answer → number ∈ set)

/-- What is known when `remaining` levels are left: every free number from
`bitNr` on lies in a block from `index` on, and below level zero the block is a
free number itself. -/
structure Narrowed (set : Set Nat) (bitNr remaining index : Nat) : Prop where
  beyond : ∀ number, bitNr ≤ number → number ∉ set → index ≤ number / 64 ^ remaining
  reached : remaining = 0 → bitNr ≤ index ∧ index ∉ set

theorem Narrowed.firstFree {set : Set Nat} {bitNr index : Nat}
    (narrowed : Narrowed set bitNr 0 index) (nrBits : Nat) :
    FirstFree set nrBits bitNr (if nrBits ≤ index then noBit else index) := by
  obtain ⟨above, free⟩ := narrowed.reached rfl
  have before : ∀ number, bitNr ≤ number → number < index → number ∈ set := by
    intro number onward below
    by_contra missing
    have later := narrowed.beyond number onward missing
    rw [Nat.pow_zero, Nat.div_one] at later
    omega
  by_cases outside : nrBits ≤ index
  · rw [if_pos outside]
    exact Or.inl ⟨rfl, fun number onward below => before number onward (by omega)⟩
  · rw [if_neg outside]
    exact Or.inr ⟨above, by omega, free, before⟩

/-- Where a level has no clear bit from `start` on, nothing is free. -/
theorem firstFree_none {set : Set Nat} {nrBits bitNr height start : Nat}
    (after : ∀ number, bitNr ≤ number → number ∉ set → start ≤ number / 64 ^ height)
    (whole : ∀ block, start ≤ block → block < 64 * blockCount nrBits (height + 1) →
      Full set height block) :
    FirstFree set nrBits bitNr noBit := by
  refine Or.inl ⟨rfl, fun number onward below => ?_⟩
  by_contra missing
  have reached := div_lt_blockCount below (height + 1)
  rw [div_pow_succ] at reached
  exact missing (whole (number / 64 ^ height) (after number onward missing) (by omega) number rfl)

theorem firstFreeBelow_spec {axmap : Axmap} {set : Set Nat} (represents : HoldsSet axmap set)
    (bitNr : Nat) :
    ∀ remaining ≤ axmap.levels.length, ∀ index, Narrowed set bitNr remaining index →
      ∃ answer, firstFreeBelow axmap bitNr remaining index = some answer ∧
        FirstFree set axmap.nrBits bitNr answer := by
  intro remaining
  induction remaining with
  | zero =>
      intro _ index narrowed
      exact ⟨_, rfl, narrowed.firstFree axmap.nrBits⟩
  | succ i ih =>
      intro within index narrowed
      have got : axmap.levels[i]? = some axmap.levels[i] := List.getElem?_eq_getElem (by omega)
      obtain ⟨size, bits⟩ := represents.levels.level got
      rw [Nat.zero_add] at size bits
      have shifted : index <<< unitShift = 64 * index := by
        rw [unitShift, Nat.shiftLeft_eq, Nat.mul_comm]
      obtain ⟨start, isStart⟩ : ∃ start,
          (if 64 * index < bitNr / 64 ^ i then bitNr / 64 ^ i else 64 * index) = start := ⟨_, rfl⟩
      have startMax : bitNr / 64 ^ i ≤ start ∧ 64 * index ≤ start ∧
          (start = bitNr / 64 ^ i ∨ start = 64 * index) := by
        by_cases low : 64 * index < bitNr / 64 ^ i
        · rw [if_pos low] at isStart
          omega
        · rw [if_neg low] at isStart
          omega
      have after : ∀ number, bitNr ≤ number → number ∉ set → start ≤ number / 64 ^ i := by
        intro number onward missing
        have base : bitNr / 64 ^ i ≤ number / 64 ^ i := Nat.div_le_div_right onward
        have block := narrowed.beyond number onward missing
        rw [div_pow_succ] at block
        omega
      simp only [firstFreeBelow, got, shifted, shift_levels, shift_unit, mask_unit, isStart,
        Option.bind_eq_bind, Option.bind_some]
      by_cases outside : axmap.levels[i].map.length ≤ start / 64
      · rw [if_pos outside]
        refine ⟨noBit, rfl, firstFree_none after fun block onward inside => ?_⟩
        omega
      · rw [if_neg outside]
        obtain ⟨found, searched, first⟩ :=
          firstFreeInLevel_spec (by omega : start / 64 < axmap.levels[i].map.length)
        rw [searched, Option.bind_some]
        cases found with
        | none =>
            refine ⟨noBit, rfl, firstFree_none after fun block onward inside => ?_⟩
            exact (bits block).mp (first block onward (by omega))
        | some next =>
            obtain ⟨above, -, clear, before⟩ := first
            have notFull : ¬ Full set i next := by
              rw [← bits next, clear]
              exact Bool.false_ne_true
            apply ih (by omega) next
            refine ⟨fun number onward missing => ?_, fun bottom => ?_⟩
            · by_contra early
              have full := (bits _).mp (before _ (after number onward missing) (by omega))
              exact missing (full number rfl)
            · subst bottom
              rw [full_zero] at notFull
              rw [Nat.pow_zero, Nat.div_one] at startMax
              exact ⟨by omega, notFull⟩

theorem axmapFindFirstFree_spec {axmap : Axmap} {set : Set Nat}
    (represents : HoldsSet axmap set) (bitNr : Nat) :
    ∃ answer, axmapFindFirstFree axmap bitNr = some answer ∧
      FirstFree set axmap.nrBits bitNr answer := by
  apply firstFreeBelow_spec represents bitNr _ (le_refl _)
  have positive := List.length_pos_iff.mpr represents.someLevel
  exact ⟨fun _ _ _ => Nat.zero_le _, fun none => by omega⟩

/-! ## The next free bit -/

/-- The number after `bitNr` when the numbers below `nrBits` are a ring. -/
def ringSuccessor (nrBits bitNr : Nat) : Nat := if bitNr + 1 = nrBits then 0 else bitNr + 1

/-- How far it is on the ring from `start` to a number. -/
def ringDistance (nrBits start number : Nat) : Nat :=
  if start ≤ number then number - start else number + nrBits - start

/-- The first number on the ring from `start` on that is not in the set, `-1ULL`
when the set has them all. -/
def NextFree (set : Set Nat) (nrBits start answer : Nat) : Prop :=
  (answer = noBit ∧ ∀ number < nrBits, number ∈ set) ∨
    (answer < nrBits ∧ answer ∉ set ∧ ∀ number < nrBits,
      ringDistance nrBits start number < ringDistance nrBits start answer → number ∈ set)

theorem FirstFree.nextFree_of_found {set : Set Nat} {nrBits start answer : Nat}
    (found : FirstFree set nrBits start answer) (isBit : answer ≠ noBit) :
    NextFree set nrBits start answer := by
  rcases found with ⟨none, -⟩ | ⟨above, inside, free, before⟩
  · exact absurd none isBit
  · refine Or.inr ⟨inside, free, fun number below nearer => ?_⟩
    rw [ringDistance, ringDistance, if_pos above] at nearer
    by_cases onward : start ≤ number
    · rw [if_pos onward] at nearer
      exact before number onward (by omega)
    · rw [if_neg onward] at nearer
      omega

/-- Nothing is free up to the end of the map: the search goes on at its start. -/
theorem FirstFree.nextFree_wrapped {set : Set Nat} {nrBits start answer : Nat}
    (found : FirstFree set nrBits 0 answer)
    (none : ∀ number, start ≤ number → number < nrBits → number ∈ set) : NextFree set nrBits start answer := by
  rcases found with ⟨isNone, all⟩ | ⟨-, inside, free, before⟩
  · exact Or.inl ⟨isNone, fun number below => all number (Nat.zero_le _) below⟩
  · refine Or.inr ⟨inside, free, fun number below nearer => ?_⟩
    have early : ¬ start ≤ answer := fun late => free (none answer late inside)
    by_cases onward : start ≤ number
    · exact none number onward below
    · rw [ringDistance, ringDistance, if_neg early, if_neg onward] at nearer
      exact before number (Nat.zero_le _) (by omega)

/-- The look into the word of level zero agrees with the search it replaces. -/
theorem quickCheck_spec {axmap : Axmap} {set : Set Nat} (represents : HoldsSet axmap set)
    {al : AxmapLevel} (got : axmap.levels[0]? = some al) {start : Nat}
    {word : BitVec 64} (stored : al.map[start / 64]? = some word)
    (clears : ~~~lowMask 64 (start % 64) &&& ~~~word ≠ 0#64) :
    FirstFree set axmap.nrBits start
      (if axmap.nrBits ≤ ((start / 64) <<< unitShift) +
          ffz (~~~(~~~lowMask 64 (start % 64) &&& ~~~word)) then noBit
        else ((start / 64) <<< unitShift) +
          ffz (~~~(~~~lowMask 64 (start % 64) &&& ~~~word))) := by
  obtain ⟨-, bits⟩ := represents.levels.level got
  have found := firstClear_word stored clears
  rw [Nat.div_add_mod] at found
  obtain ⟨above, -, clear, before⟩ := found
  have inSet : ∀ number, bitAt al.map number = true ↔ number ∈ set := by
    intro number
    rw [bits, Nat.zero_add, full_zero]
  refine Narrowed.firstFree ⟨fun number onward missing => ?_, fun _ => ⟨above, ?_⟩⟩ _
  · by_contra early
    rw [Nat.pow_zero, Nat.div_one] at early
    exact missing ((inSet number).mp (before number onward (by omega)))
  · rw [← inSet, clear]
    exact Bool.false_ne_true

/-- The end of `axmap_next_free`, after a search from `start` that ended with `ret`. -/
theorem wrapAround_spec {axmap : Axmap} {set : Set Nat} (represents : HoldsSet axmap set)
    (small : axmap.nrBits ≤ noBit) {start ret : Nat}
    (first : FirstFree set axmap.nrBits start ret) :
    ∃ answer, (if ret = noBit ∧ start ≠ 0 then axmapFindFirstFree axmap 0 else some ret) =
        some answer ∧ NextFree set axmap.nrBits start answer := by
  have none : ret = noBit →
      ∀ number, start ≤ number → number < axmap.nrBits → number ∈ set := by
    intro isNone
    rcases first with ⟨-, all⟩ | ⟨-, below, -⟩
    · exact all
    · omega
  by_cases wrap : ret = noBit ∧ start ≠ 0
  · rw [if_pos wrap]
    obtain ⟨answer, searched, found⟩ := axmapFindFirstFree_spec represents 0
    exact ⟨answer, searched, found.nextFree_wrapped (none wrap.1)⟩
  · rw [if_neg wrap]
    refine ⟨ret, rfl, ?_⟩
    by_cases missing : ret = noBit
    · obtain rfl : start = 0 := by
        by_contra later
        exact wrap ⟨missing, later⟩
      exact first.nextFree_wrapped (none missing)
    · exact first.nextFree_of_found missing

theorem ringSuccessor_lt {nrBits bitNr : Nat} (inside : bitNr < nrBits) :
    ringSuccessor nrBits bitNr < nrBits := by
  rw [ringSuccessor]
  by_cases last : bitNr + 1 = nrBits
  · rw [if_pos last]
    omega
  · rw [if_neg last]
    omega

theorem axmapNextFree_spec {axmap : Axmap} {set : Set Nat} (represents : HoldsSet axmap set)
    (small : axmap.nrBits ≤ noBit) {bitNr : Nat} (inside : bitNr < axmap.nrBits) :
    ∃ answer, axmapNextFree axmap bitNr = some answer ∧
      NextFree set axmap.nrBits (ringSuccessor axmap.nrBits bitNr) answer := by
  have startInside := ringSuccessor_lt inside
  generalize isStart : ringSuccessor axmap.nrBits bitNr = start at startInside ⊢
  rw [ringSuccessor] at isStart
  obtain ⟨al, got⟩ : ∃ al, axmap.levels[0]? = some al :=
    ⟨_, List.getElem?_eq_getElem (List.length_pos_iff.mpr represents.someLevel)⟩
  obtain ⟨word, stored⟩ : ∃ word, al.map[start / 64]? = some word := by
    have reached := div_lt_blockCount startInside 1
    rw [Nat.pow_one] at reached
    exact ⟨_, List.getElem?_eq_getElem (by rwa [(represents.levels.level got).1])⟩
  have bitSmall : start % 64 ≤ 64 := Nat.le_of_lt (Nat.mod_lt start (by decide))
  simp only [axmapNextFree, if_neg (Nat.not_le.mpr inside), isStart, shift_unit, mask_unit,
    bitMasks_eq bitSmall, got, stored, Option.bind_eq_bind, Option.bind_some]
  by_cases clears : ~~~lowMask 64 (start % 64) &&& ~~~word ≠ 0#64
  · rw [if_pos clears]
    exact wrapAround_spec represents small (quickCheck_spec represents got stored clears)
  · rw [if_neg clears]
    obtain ⟨ret, searched, first⟩ := axmapFindFirstFree_spec represents start
    rw [searched, Option.bind_some]
    exact wrapAround_spec represents small first

end RaptorMark.Fio
