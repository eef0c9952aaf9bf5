import RaptorMark.Fio.AxmapLevels

/-!
# An axmap is a set

One specification for each operation of `lib/axmap.c`, in terms of the set the
map represents: a new map and a map after a reset represent the empty set,
`axmap_set_nr` adds the free run at the front of what it is asked to set and
returns its length, `axmap_isset` is membership.
-/

set_option autoImplicit false

namespace RaptorMark.Fio

open Lib.PackedBits

/-- The `count` numbers from `first` on. -/
def numbersFrom (first count : Nat) : Set Nat :=
  fun number => first ≤ number ∧ number < first + count

/-- Of the `asked` numbers from `first` on, the leading `count` are not in the
set, and the one after them is unless all were asked for. -/
structure FreeRun (set : Set Nat) (first asked count : Nat) : Prop where
  within : count ≤ asked
  free : ∀ step < count, first + step ∉ set
  stopped : count < asked → first + count ∈ set

theorem mem_add_run {set : Set Nat} {first count number : Nat} :
    number ∈ set ∪ numbersFrom first count ↔
      number ∈ set ∨ first ≤ number ∧ number < first + count :=
  Iff.rfl

theorem add_empty_run (set : Set Nat) (first : Nat) : set ∪ numbersFrom first 0 = set := by
  ext number
  rw [mem_add_run]
  constructor
  · rintro (old | ⟨above, below⟩)
    · exact old
    · omega
  · exact Or.inl

theorem add_run_add_run (set : Set Nat) (first count more : Nat) :
    set ∪ numbersFrom first count ∪ numbersFrom (first + count) more =
      set ∪ numbersFrom first (count + more) := by
  ext number
  rw [mem_add_run, mem_add_run, mem_add_run]
  constructor
  · rintro ((old | new) | new)
    · exact Or.inl old
    · right
      omega
    · right
      omega
  · rintro (old | new)
    · exact Or.inl (Or.inl old)
    · by_cases early : number < first + count
      · exact Or.inl (Or.inr ⟨new.1, early⟩)
      · right
        omega

theorem filled_run (set : Set Nat) (first count : Nat) :
    Filled set (set ∪ numbersFrom first count) 0 first count where
  included := fun _ old => Or.inl old
  filled := fun step below => by
    rw [full_zero, mem_add_run]
    right
    omega
  elsewhere := fun number member apart => by
    rw [Nat.pow_zero, Nat.div_one] at apart
    rcases mem_add_run.mp member with old | new
    · exact old
    · omega

/-- `__axmap_set` on a run inside one word. -/
theorem axmapSetWord_spec {axmap : Axmap} {set : Set Nat} (represents : HoldsSet axmap set)
    {bitNr asked : Nat} (inside : bitNr < axmap.nrBits) (fits : bitNr % 64 + asked ≤ 64)
    (below : bitNr + asked ≤ axmap.nrBits) :
    ∃ next data, axmapSetWord axmap bitNr { nrBits := asked, setBits := 0 } = some (next, data) ∧
      FreeRun set bitNr asked data.setBits ∧ next.nrBits = axmap.nrBits ∧
      HoldsSet next (set ∪ numbersFrom bitNr data.setBits) := by
  have size : blocksPerUnit = 64 := rfl
  obtain ⟨levels, nrBits⟩ := axmap
  obtain ⟨bounded, someLevel, described⟩ := represents
  cases levels with
  | nil => exact absurd rfl someLevel
  | cons al above =>
      obtain ⟨level, length, bits, rest⟩ := described
      have offsetInside : bitNr / 64 < al.map.length := by
        have reached := div_lt_blockCount inside 1
        rw [Nat.pow_one] at reached
        rw [length]
        exact reached
      have stored := List.getElem?_eq_getElem offsetInside
      have entered : axmapSetWord ⟨al :: above, nrBits⟩ bitNr { nrBits := asked, setBits := 0 } =
          (axmapHandler axmapSetFn (al :: above) bitNr { nrBits := asked, setBits := 0 }).bind
            fun walked => some (⟨walked.2.1, nrBits⟩, walked.2.2) := by
        have notBeyond : ¬ nrBits < bitNr := Nat.not_lt.mpr (Nat.le_of_lt inside)
        have notCut : ¬ nrBits < bitNr + asked := Nat.not_lt.mpr below
        simp only [axmapSetWord, if_neg notBeyond, if_neg notCut]
        rw [if_pos (by omega)]
        rfl
      by_cases busy : asked = 0 ∨ bitNr ∈ set
      · have atBit : asked = 0 ∨ (al.map[bitNr / 64]).getLsbD (bitNr % 64) = true := by
          rcases busy with nothing | member
          · exact Or.inl nothing
          · right
            rw [← bitAt_of_word stored (Nat.mod_lt bitNr (by decide)), Nat.div_add_mod, bits,
              full_zero]
            exact member
        have kept := axmapSetFn_busy stored fits atBit
        refine ⟨⟨al :: above, nrBits⟩, { nrBits := asked, setBits := 0 }, ?_, ?_, rfl, ?_⟩
        · rw [entered]
          simp only [axmapHandler, shift_unit, mask_unit, kept, Option.bind_eq_bind,
            Option.bind_some, if_true]
        · exact ⟨Nat.zero_le _, fun step less => absurd less (Nat.not_lt_zero _),
            fun positive => busy.resolve_left (by omega)⟩
        · rw [add_empty_run]
          exact ⟨bounded, someLevel, level, length, bits, rest⟩
      · rw [not_or] at busy
        have free : bitAt al.map bitNr = false := by
          rw [Bool.eq_false_iff, ne_eq, bits, full_zero]
          exact busy.2
        obtain ⟨count, positive, within, clear, stop, written⟩ :=
          axmapSetFn_run stored 0 (Nat.pos_of_ne_zero busy.1) fits free
        rw [if_pos level] at written
        have run : FreeRun set bitNr asked count := by
          refine ⟨within, fun step less member => ?_, fun less => ?_⟩
          · rw [← full_zero set, ← bits, clear step less] at member
            cases member
          · rw [← full_zero set, ← bits]
            exact stop less
        obtain ⟨done, next, walked, nextSome, nextDescribed⟩ :=
          handler_written ⟨level, length, bits, rest⟩ (filled_run set bitNr count) (by omega) stored written
            fun full => handler_carry above 1 (bitNr / 64) count Nat.one_pos rest
              (by rw [Nat.pow_one]; omega)
              (fun whole => busy.2 ((full_zero set bitNr).mp
                (Full.part 1 (by rwa [Nat.pow_one, Nat.zero_add]))))
              { included := (filled_run set bitNr count).included
                filled := fun step less => by
                  obtain rfl : step = 0 := by omega
                  exact full
                elsewhere := fun number member apart => by
                  apply (filled_run set bitNr count).elsewhere number member
                  rw [Nat.pow_one] at apart
                  rw [Nat.pow_zero, Nat.div_one]
                  omega }
        refine ⟨⟨next, nrBits⟩, { nrBits := 1, setBits := count }, ?_, run, rfl, ?_, nextSome,
          nextDescribed⟩
        · rw [entered, walked]
          rfl
        · intro number member
          rcases mem_add_run.mp member with old | new
          · exact bounded number old
          · have ends : bitNr + count ≤ nrBits := Nat.le_trans (by omega) below
            exact Nat.lt_of_lt_of_le new.2 ends

/-- A run that fills a whole prefix goes on behind it as before. -/
theorem FreeRun.append {set : Set Nat} {first asked count more : Nat}
    (front : FreeRun set first count count) (within : count ≤ asked)
    (back : FreeRun (set ∪ numbersFrom first count) (first + count) (asked - count) more) :
    FreeRun set first asked (count + more) := by
  refine ⟨?_, fun step below member => ?_, fun less => ?_⟩
  · have := back.within
    omega
  · by_cases early : step < count
    · exact front.free step early member
    · apply back.free (step - count) (by omega)
      rw [show first + count + (step - count) = first + step by omega]
      exact Or.inl member
  · have member := back.stopped (by omega)
    rw [Nat.add_assoc, mem_add_run] at member
    rcases member with old | new
    · exact old
    · omega

theorem setRounds_spec :
    ∀ (rounds : Nat) {axmap : Axmap} {set : Set Nat} {bitNr asked : Nat} (already : Nat),
      HoldsSet axmap set → asked < rounds → bitNr < axmap.nrBits →
      bitNr + asked ≤ axmap.nrBits →
      ∃ next count, setRounds rounds axmap bitNr asked already = some (next, already + count) ∧
        FreeRun set bitNr asked count ∧ next.nrBits = axmap.nrBits ∧
        HoldsSet next (set ∪ numbersFrom bitNr count) := by
  intro rounds
  induction rounds with
  | zero =>
      intro axmap set bitNr asked already _ enough
      exact absurd enough (Nat.not_lt_zero _)
  | succ rounds ih =>
      intro axmap set bitNr asked already represents enough inside below
      have size : blocksPerUnit = 64 := rfl
      have remainder : bitNr % 64 < 64 := Nat.mod_lt bitNr (by decide)
      -- the part of the run that lies in the word of its first bit
      obtain ⟨thisSet, isThisSet⟩ :
          ∃ thisSet, (if 64 - bitNr % 64 < asked then 64 - bitNr % 64 else asked) = thisSet :=
        ⟨_, rfl⟩
      have inWord : bitNr % 64 + thisSet ≤ 64 ∧ thisSet ≤ asked ∧ (thisSet = 0 → asked = 0) := by
        by_cases long : 64 - bitNr % 64 < asked
        · rw [if_pos long] at isThisSet
          omega
        · rw [if_neg long] at isThisSet
          omega
      obtain ⟨next, data, done, run, sameBits, nextRepresents⟩ :=
        axmapSetWord_spec represents inside inWord.1 (by omega : bitNr + thisSet ≤ axmap.nrBits)
      simp only [setRounds, mask_unit, size, isThisSet, done, Option.bind_eq_bind,
        Option.bind_some]
      by_cases short : data.setBits ≠ thisSet
      · rw [if_pos short]
        have less : data.setBits < thisSet := Nat.lt_of_le_of_ne run.within short
        exact ⟨next, data.setBits, rfl,
          ⟨by omega, run.free, fun _ => run.stopped less⟩, sameBits, nextRepresents⟩
      · rw [not_not] at short
        rw [if_neg (not_not_intro short), short]
        rw [short] at run nextRepresents
        by_cases more : asked - thisSet ≠ 0
        · rw [if_pos more]
          obtain ⟨last, count, rest, restRun, lastBits, lastRepresents⟩ :=
            ih (already + thisSet) nextRepresents (by omega) (by omega)
              (by omega : bitNr + thisSet + (asked - thisSet) ≤ next.nrBits)
          refine ⟨last, thisSet + count, ?_, run.append inWord.2.1 restRun, by omega, ?_⟩
          · rw [rest, Nat.add_assoc]
          · rw [← add_run_add_run]
            exact lastRepresents
        · rw [if_neg more]
          obtain rfl : asked = thisSet := by omega
          exact ⟨next, asked, rfl, run, sameBits, nextRepresents⟩

theorem axmapSetNr_spec {axmap : Axmap} {set : Set Nat} (represents : HoldsSet axmap set)
    {bitNr asked : Nat} (inside : bitNr < axmap.nrBits) (below : bitNr + asked ≤ axmap.nrBits) :
    ∃ next count, axmapSetNr axmap bitNr asked = some (next, count) ∧
      FreeRun set bitNr asked count ∧ next.nrBits = axmap.nrBits ∧
      HoldsSet next (set ∪ numbersFrom bitNr count) := by
  obtain ⟨next, count, done, rest⟩ :=
    setRounds_spec (asked + 1) 0 represents (Nat.lt_succ_self asked) inside below
  rw [Nat.zero_add] at done
  exact ⟨next, count, done, rest⟩

theorem axmapSet_spec {axmap : Axmap} {set : Set Nat} (represents : HoldsSet axmap set)
    {bitNr : Nat} (inside : bitNr < axmap.nrBits) :
    ∃ next, axmapSet axmap bitNr = some next ∧ next.nrBits = axmap.nrBits ∧
      HoldsSet next (set ∪ numbersFrom bitNr 1) := by
  have remainder : bitNr % 64 < 64 := Nat.mod_lt bitNr (by decide)
  obtain ⟨next, data, done, run, sameBits, nextRepresents⟩ :=
    axmapSetWord_spec represents inside (by omega : bitNr % 64 + 1 ≤ 64) inside
  refine ⟨next, ?_, sameBits, ?_⟩
  · rw [axmapSet, done]
    rfl
  · have added : set ∪ numbersFrom bitNr 1 = set ∪ numbersFrom bitNr data.setBits := by
      have within := run.within
      by_cases nothing : data.setBits = 0
      · rw [nothing, add_empty_run]
        ext number
        rw [mem_add_run]
        constructor
        · rintro (old | new)
          · exact old
          · have member := run.stopped (by omega)
            rwa [nothing, show bitNr + 0 = number by omega] at member
        · exact Or.inl
      · rw [show data.setBits = 1 by omega]
    rw [added]
    exact nextRepresents

/-! ## The empty set -/

theorem not_full_empty (height block : Nat) : ¬ Full ∅ height block := by
  intro full
  exact full (64 ^ height * block) (Nat.mul_div_cancel_left block (Nat.pow_pos (by decide)))

/-- The levels of a map have the sizes of a map of `nrBits` bits, whatever is in them. -/
def Sized (nrBits : Nat) : Nat → List AxmapLevel → Prop
  | _, [] => True
  | height, al :: above =>
      al.level = height ∧ al.map.length = blockCount nrBits (height + 1) ∧
        Sized nrBits (height + 1) above

theorem LevelsHold.sized {set : Set Nat} {nrBits : Nat} :
    ∀ {levels : List AxmapLevel} {height : Nat},
      LevelsHold set nrBits height levels → Sized nrBits height levels := by
  intro levels
  induction levels with
  | nil => intro height _; trivial
  | cons al above ih =>
      intro height ⟨level, size, _, rest⟩
      exact ⟨level, size, ih rest⟩

theorem reset_levels {nrBits : Nat} :
    ∀ {levels : List AxmapLevel} {height : Nat}, Sized nrBits height levels →
      LevelsHold ∅ nrBits height
        (levels.map fun al => { al with map := List.replicate al.map.length 0#64 }) := by
  intro levels
  induction levels with
  | nil => intro height _; trivial
  | cons al above ih =>
      intro height ⟨level, size, rest⟩
      refine ⟨level, by rw [List.length_replicate, size], fun index => ?_, ih rest⟩
      have empty := not_full_empty height index
      simp only [bitAt_replicate_zero, Bool.false_eq_true, empty]

theorem axmapReset_empty {axmap : Axmap} (someLevel : axmap.levels ≠ [])
    (sized : Sized axmap.nrBits 0 axmap.levels) : HoldsSet (axmapReset axmap) ∅ where
  below := fun _ absurdity => absurdity.elim
  someLevel := by
    rw [axmapReset, ne_eq, List.map_eq_nil_iff]
    exact someLevel
  levels := reset_levels sized

/-- A reset empties the set. -/
theorem axmapReset_spec {axmap : Axmap} {set : Set Nat} (represents : HoldsSet axmap set) :
    HoldsSet (axmapReset axmap) ∅ :=
  axmapReset_empty represents.someLevel represents.levels.sized

theorem unitsFor_eq {nrBits : Nat} (small : nrBits + 63 < 18446744073709551616) :
    unitsFor nrBits = (nrBits + 64 - 1) / 64 := by
  have size : blocksPerUnit = 64 := rfl
  rw [unitsFor, size, Nat.mod_eq_of_lt (by omega), shift_unit]

theorem newLevels_sized {heap : Nat → Option (Nat → BitVec 64)} {bits : Nat} :
    ∀ (remaining height nrBits : Nat) {levels : List AxmapLevel},
      nrBits + 63 < 18446744073709551616 → nrBits = blockCount bits height →
        newLevels heap remaining height nrBits = some levels →
          levels.length = remaining ∧ Sized bits height levels := by
  intro remaining
  induction remaining with
  | zero =>
      intro height nrBits levels _ _ made
      cases made
      exact ⟨rfl, trivial⟩
  | succ remaining ih =>
      intro height nrBits levels small counted made
      simp only [newLevels, Option.bind_eq_bind, Option.bind_eq_some_iff, Option.some.injEq] at made
      obtain ⟨block, -, above, madeAbove, rfl⟩ := made
      have units := unitsFor_eq small
      have next : unitsFor nrBits = blockCount bits (height + 1) := by
        rw [units, blockCount_succ, counted]
      obtain ⟨length, sized⟩ := ih (height + 1) (unitsFor nrBits) (by omega) next madeAbove
      refine ⟨by rw [List.length_cons, length], rfl, ?_, sized⟩
      rw [List.length_map, List.length_range, next]

/-- A heap that refuses no request makes a map. -/
theorem newLevels_granted {heap : Nat → Option (Nat → BitVec 64)}
    (granted : ∀ request, ∃ block, heap request = some block) :
    ∀ remaining height nrBits, ∃ levels, newLevels heap remaining height nrBits = some levels := by
  intro remaining
  induction remaining with
  | zero => intro height nrBits; exact ⟨[], rfl⟩
  | succ remaining ih =>
      intro height nrBits
      obtain ⟨block, answered⟩ := granted (height + 2)
      obtain ⟨above, made⟩ := ih (height + 1) (unitsFor nrBits)
      exact ⟨_, by rw [newLevels, answered, made]; rfl⟩

theorem axmapNew_granted {heap : Nat → Option (Nat → BitVec 64)}
    (granted : ∀ request, ∃ block, heap request = some block) (nrBits : Nat) :
    ∃ axmap, axmapNew heap nrBits = some axmap := by
  obtain ⟨first, firstAnswer⟩ := granted 0
  obtain ⟨second, secondAnswer⟩ := granted 1
  obtain ⟨levels, made⟩ := newLevels_granted granted
    (levelsAbove (unitsFor nrBits % 4294967296) + 1) 0 nrBits
  exact ⟨_, by rw [axmapNew, firstAnswer, secondAnswer, Option.bind_eq_bind, Option.bind_some,
    Option.bind_some, made]; rfl⟩

/-- A new map is empty, whatever its memory held. -/
theorem axmapNew_spec {heap : Nat → Option (Nat → BitVec 64)} {nrBits : Nat} {axmap : Axmap}
    (small : nrBits + 63 < 18446744073709551616) (made : axmapNew heap nrBits = some axmap) :
    axmap.nrBits = nrBits ∧ HoldsSet axmap ∅ := by
  simp only [axmapNew, Option.bind_eq_bind, Option.bind_eq_some_iff, Option.some.injEq] at made
  obtain ⟨-, -, -, -, levels, madeLevels, rfl⟩ := made
  have counted : nrBits = blockCount nrBits 0 := by
    rw [blockCount, Nat.pow_zero, Nat.div_one, Nat.add_sub_cancel]
  obtain ⟨length, sized⟩ := newLevels_sized _ 0 nrBits small counted madeLevels
  refine ⟨rfl, axmapReset_empty ?_ sized⟩
  intro noLevel
  have empty : levels.length = 0 := congrArg List.length noLevel
  omega

/-! ## Membership -/

theorem LevelsHold.level {set : Set Nat} {nrBits : Nat} :
    ∀ {levels : List AxmapLevel} {height i : Nat} {al : AxmapLevel},
      LevelsHold set nrBits height levels → levels[i]? = some al →
        al.map.length = blockCount nrBits (height + i + 1) ∧
          ∀ index, bitAt al.map index = true ↔ Full set (height + i) index := by
  intro levels
  induction levels with
  | nil => intro height i al _ got; cases got
  | cons first above ih =>
      intro height i al ⟨_, size, bits, rest⟩ got
      cases i with
      | zero =>
          cases got
          exact ⟨size, bits⟩
      | succ i =>
          have found := ih rest got
          rw [Nat.add_right_comm height 1 i] at found
          exact found

theorem shift_levels (bitNr i : Nat) : bitNr >>> (unitShift * i) = bitNr / 64 ^ i := by
  rw [unitShift, Nat.shiftRight_eq_div_pow, Nat.pow_mul]

theorem mask_bit_ne_zero (word : BitVec 64) {bit : Nat} (inside : bit < 64) :
    decide (word &&& 1#64 <<< bit ≠ 0#64) = word.getLsbD bit := by
  have oneBit : 1#64 = lowMask 64 1 := rfl
  rw [oneBit]
  cases present : word.getLsbD bit with
  | true =>
      rw [decide_eq_true_eq]
      intro zero
      have atBit := (overlap_bit word bit (by omega : bit + 1 ≤ 64)).mpr ⟨present, by omega⟩
      rw [zero, BitVec.getLsbD_zero] at atBit
      cases atBit
  | false =>
      rw [decide_eq_false_iff_not, not_not, BitVec.zero_iff_eq_false]
      intro index
      rw [Bool.eq_false_iff, ne_eq, overlap_bit word index (by omega)]
      rintro ⟨other, above, below⟩
      obtain rfl : index = bit := by omega
      rw [present] at other
      cases other

/-- The walk downwards reads each level at the block of the bit; a full block
answers at once, and level zero answers for the bit itself. -/
theorem topdown_spec {axmap : Axmap} {set : Set Nat} (represents : HoldsSet axmap set)
    {bitNr : Nat} (inside : bitNr < axmap.nrBits) :
    ∀ remaining ≤ axmap.levels.length,
      ∃ answer, axmapHandlerTopdown axmapIssetFn axmap.levels bitNr remaining = some answer ∧
        (answer = true ↔ 0 < remaining ∧ bitNr ∈ set) := by
  intro remaining
  induction remaining with
  | zero =>
      intro _
      refine ⟨false, rfl, ?_⟩
      simp
  | succ i ih =>
      intro within
      obtain ⟨rest, walked, restIff⟩ := ih (by omega)
      have got : axmap.levels[i]? = some axmap.levels[i] := List.getElem?_eq_getElem (by omega)
      obtain ⟨size, bits⟩ := represents.levels.level got
      rw [Nat.zero_add] at size bits
      have stored := List.getElem?_eq_getElem (l := axmap.levels[i].map)
        (i := bitNr / 64 ^ i / 64) (by
          rw [size, ← div_pow_succ]
          exact div_lt_blockCount inside (i + 1))
      have remainder : bitNr / 64 ^ i % 64 < 64 := Nat.mod_lt _ (by decide)
      have read := bitAt_of_word stored remainder
      rw [Nat.div_add_mod] at read
      simp only [axmapHandlerTopdown, axmapIssetFn, shift_levels, shift_unit, mask_unit, got,
        stored, Option.bind_eq_bind, Option.bind_some, mask_bit_ne_zero _ remainder, ← read]
      by_cases full : bitAt axmap.levels[i].map (bitNr / 64 ^ i) = true
      · have member : bitNr ∈ set := (bits _).mp full bitNr rfl
        rw [if_pos full]
        exact ⟨true, rfl, fun _ => ⟨Nat.succ_pos i, member⟩, fun _ => rfl⟩
      · rw [if_neg full]
        refine ⟨rest, walked, restIff.trans ?_⟩
        constructor
        · intro ⟨_, member⟩
          exact ⟨Nat.succ_pos i, member⟩
        · intro ⟨_, member⟩
          refine ⟨Nat.pos_of_ne_zero fun bottom => full ?_, member⟩
          subst bottom
          rw [bits, Nat.pow_zero, Nat.div_one, full_zero]
          exact member

theorem axmapIsset_spec {axmap : Axmap} {set : Set Nat} (represents : HoldsSet axmap set)
    {bitNr : Nat} (inside : bitNr < axmap.nrBits) :
    ∃ answer, axmapIsset axmap bitNr = some answer ∧ (answer = true ↔ bitNr ∈ set) := by
  obtain ⟨answer, walked, iff⟩ := topdown_spec represents inside _ (le_refl _)
  refine ⟨answer, ?_, ?_⟩
  · rw [axmapIsset, if_pos (Nat.le_of_lt inside), walked]
  · rw [iff, and_iff_right (List.length_pos_iff.mpr represents.someLevel)]

end RaptorMark.Fio
