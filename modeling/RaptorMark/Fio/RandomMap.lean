import Mathlib.Data.List.Nodup
import Mathlib.Data.List.Perm.Subperm
import RaptorMark.Fio.AxmapRefinement

/-!
# Random blocks

The random side of `io_u.c`, with `init_random_map` and `fio_file_reset` of
`filesetup.c`: a block is drawn, a block the map has seen already is replaced
by the next free one, and the blocks of the I/O are marked.  What the random
generator and `get_next_buflen` answer is a parameter.  `fillIoU` is the path
of `fill_io_u` a random read or write takes; it returns the offset and the
length of the I/O, or nothing where the source returns 1.
-/

set_option autoImplicit false

namespace RaptorMark.Fio

/-- The options the random path reads. -/
structure RandomOptions where
  minBs : Nat
  ba : Nat
  rwMinBs : Nat
  zoneStrided : Bool
  zoneRange : Nat
  norandommap : Bool
  softrandommap : Bool
  timeBased : Bool
  serviceNonuniform : Bool

structure RandomFile where
  fileOffset : Nat
  ioSize : Nat
  realFileSize : Nat
  ioAxmap : Option Axmap

/-- A job on one file, and how many random numbers it has drawn. -/
structure RandomThread where
  file : RandomFile
  drawn : Nat

/-- What `init_random_map` does for one file; `none` where it gives up. -/
def initRandomMap (o : RandomOptions) (heap : Nat → Option (Nat → BitVec 64)) (f : RandomFile) :
    Option RandomFile :=
  let fsize := min f.realFileSize f.ioSize
  let fsize := if o.zoneStrided then o.zoneRange else fsize
  let blocks := fsize / o.rwMinBs
  if o.norandommap then
    some f
  else
    match axmapNew heap blocks with
    | some axmap => some { f with ioAxmap := some axmap }
    | none => if o.softrandommap then some f else none

def lastBlock (o : RandomOptions) (f : RandomFile) : Nat :=
  let maxSize := if f.realFileSize < f.ioSize then f.realFileSize else f.ioSize
  let maxSize := if o.zoneStrided ∧ o.zoneRange ≠ 0 then o.zoneRange else maxSize
  let maxSize :=
    if o.ba < o.minBs then
      (maxSize + 18446744073709551616 - (o.minBs - o.ba)) % 18446744073709551616
    else maxSize
  maxSize / o.ba

/-- `__get_next_rand_offset` after the draw of `b`. -/
def mapRandOffset (o : RandomOptions) (f : RandomFile) (b : Nat) : Option (Option Nat) :=
  match o.norandommap, f.ioAxmap with
  | false, some axmap => do
      if ← axmapIsset axmap b then
        let b ← axmapNextFree axmap b
        some (if b = noBit then none else some b)
      else
        some (some b)
  | _, _ => some (some b)

section Draws

-- the block the generator's next number stands for, of `lastb` blocks
variable (random : Nat → Nat → Nat)

def getNextRandOffset (o : RandomOptions) (td : RandomThread) :
    Option (Option Nat × RandomThread) :=
  let lastb := lastBlock o td.file
  if lastb = 0 then
    some (none, td)
  else do
    let b ← mapRandOffset o td.file (random td.drawn lastb)
    some (b, { td with drawn := td.drawn + 1 })

def fioFileReset (f : RandomFile) : RandomFile :=
  { f with ioAxmap := f.ioAxmap.map axmapReset }

def getNextRandBlock (o : RandomOptions) (td : RandomThread) :
    Option (Option Nat × RandomThread) := do
  match ← getNextRandOffset random o td with
  | (some b, td) => some (some b, td)
  | (none, td) =>
      if o.timeBased ∨ o.serviceNonuniform then
        getNextRandOffset random o { td with file := fioFileReset td.file }
      else
        some (none, td)

/-- The offset of a block, if the file has it. -/
def blockOffset (o : RandomOptions) (f : RandomFile) (b : Nat) : Option Nat :=
  let offset := b * o.ba
  if f.ioSize ≤ offset then none
  else if f.realFileSize ≤ offset + f.fileOffset then none
  else some (offset + f.fileOffset)

/-- `mark_random_map` for an I/O whose blocks are not known to be busy. -/
def markRandomMap (o : RandomOptions) (axmap : Axmap) (fileOffset offset buflen : Nat) :
    Option (Axmap × Nat) := do
  let block := (offset - fileOffset) / o.minBs
  let nrBlocks := (buflen + o.minBs - 1) / o.minBs
  if nrBlocks = 0 then none else
  let (axmap, nrBlocks) ← axmapSetNr axmap block (nrBlocks % 4294967296)
  if nrBlocks = 0 then none else
  some (axmap, if nrBlocks * o.minBs < buflen then nrBlocks * o.minBs else buflen)

/-- A random read or write in `fill_io_u`; `nextBuflen` is what `get_next_buflen`
answers at an offset. -/
def fillIoU (o : RandomOptions) (nextBuflen : Nat → Nat) (td : RandomThread) :
    Option (Option (Nat × Nat) × RandomThread) := do
  let (block, td) ← getNextRandBlock random o td
  match block.bind (blockOffset o td.file) with
  | none => some (none, td)
  | some offset =>
      let buflen := nextBuflen offset
      if buflen = 0 ∨ td.file.realFileSize < offset + buflen then
        some (none, td)
      else
        match o.norandommap, td.file.ioAxmap with
        | false, some axmap => do
            let (axmap, buflen) ← markRandomMap o axmap td.file.fileOffset offset buflen
            some (some (offset, buflen), { td with file.ioAxmap := some axmap })
        | _, _ => some (some (offset, buflen), td)

/-- The I/Os a job fills one after the other. -/
def fillIoUs (o : RandomOptions) :
    List (Nat → Nat) → RandomThread → Option (List (Option (Nat × Nat)) × RandomThread)
  | [], td => some ([], td)
  | nextBuflen :: rest, td => do
      let (filled, td) ← fillIoU random o nextBuflen td
      let (others, td) ← fillIoUs o rest td
      some (filled :: others, td)

end Draws

/-! ## One I/O -/

/-- A random job as `fixup_options` and `setup_files` leave it when it uses a
map: the blocks of the map are the blocks that are drawn. -/
structure MappedJob (o : RandomOptions) (f : RandomFile) : Prop where
  aligned : o.ba = o.minBs
  smallest : o.rwMinBs = o.minBs
  positive : 0 < o.minBs
  noZones : o.zoneStrided = false
  mapped : o.norandommap = false
  contained : f.fileOffset + f.ioSize ≤ f.realFileSize
  countable : f.ioSize / o.minBs + 63 < 18446744073709551616

/-- The generator stays below the number of blocks. -/
def DrawsBelow (random : Nat → Nat → Nat) : Prop :=
  ∀ drawn lastb, 0 < lastb → random drawn lastb < lastb

/-- At every block `get_next_buflen` answers a number of whole blocks that fit. -/
def AsksBlocks (o : RandomOptions) (f : RandomFile) (nextBuflen : Nat → Nat) : Prop :=
  ∀ b < f.ioSize / o.minBs, ∃ count, 0 < count ∧ count < 4294967296 ∧
    b + count ≤ f.ioSize / o.minBs ∧ nextBuflen (b * o.minBs + f.fileOffset) = count * o.minBs

def withMap (f : RandomFile) (axmap : Axmap) (drawn : Nat) : RandomThread :=
  ⟨{ f with ioAxmap := some axmap }, drawn⟩

section Job

variable {random : Nat → Nat → Nat} (below : DrawsBelow random)
  {o : RandomOptions} {f : RandomFile} (job : MappedJob o f)

include job in
theorem lastBlock_eq (map : Option Axmap) :
    lastBlock o { f with ioAxmap := map } = f.ioSize / o.minBs := by
  have contained := job.contained
  have notLarger : ¬ f.realFileSize < f.ioSize := by omega
  have noGap : ¬ o.ba < o.minBs := by
    rw [job.aligned]
    exact lt_irrefl _
  simp only [lastBlock, if_neg notLarger, job.noZones, Bool.false_eq_true, false_and, if_false,
    if_neg noGap]
  rw [job.aligned]

include job in
theorem mapRandOffset_spec {axmap : Axmap} {set : Set Nat} (holds : HoldsSet axmap set)
    (small : axmap.nrBits ≤ noBit) {b : Nat} (inside : b < axmap.nrBits) :
    ∃ answer, mapRandOffset o { f with ioAxmap := some axmap } b = some answer ∧
      (answer = none → ∀ number < axmap.nrBits, number ∈ set) ∧
      ∀ block, answer = some block → block < axmap.nrBits ∧ block ∉ set := by
  obtain ⟨isset, asked, iff⟩ := axmapIsset_spec holds inside
  simp only [mapRandOffset, job.mapped, asked, Option.bind_eq_bind, Option.bind_some]
  cases isset with
  | false =>
      refine ⟨some b, rfl, fun none => absurd none (Option.some_ne_none b), fun block same => ?_⟩
      cases same
      exact ⟨inside, fun member => Bool.false_ne_true (iff.mpr member)⟩
  | true =>
      obtain ⟨next, searched, nextFree⟩ := axmapNextFree_spec holds small inside
      simp only [if_true, searched, Option.bind_some]
      refine ⟨_, rfl, fun none => ?_, fun block same => ?_⟩
      · by_cases missing : next = noBit
        · rcases nextFree with ⟨-, all⟩ | ⟨nextInside, -⟩
          · exact all
          · omega
        · rw [if_neg missing] at none
          cases none
      · by_cases missing : next = noBit
        · rw [if_pos missing] at same
          cases same
        · rw [if_neg missing] at same
          cases same
          rcases nextFree with ⟨isNone, -⟩ | ⟨nextInside, free, -⟩
          · exact absurd isNone missing
          · exact ⟨nextInside, free⟩

def Renews (o : RandomOptions) : Prop := o.timeBased = true ∨ o.serviceNonuniform = true

/-- What the choice of a block does: a free block is chosen; where there is
none, the map is emptied first or no block is chosen. -/
inductive Chosen (blocks : Nat) (renews : Prop) (set : Set Nat) : Option Nat → Set Nat → Prop
  | free {b : Nat} (inside : b < blocks) (free : b ∉ set) : Chosen blocks renews set (some b) set
  | renewed {b : Nat} (inside : b < blocks) (all : ∀ number < blocks, number ∈ set)
      (again : renews) : Chosen blocks renews set (some b) ∅
  | spent (all : ∀ number < blocks, number ∈ set) (ends : ¬ renews ∨ blocks = 0) :
      Chosen blocks renews set none set

include below job in
theorem getNextRandOffset_spec {axmap : Axmap} {set : Set Nat} (holds : HoldsSet axmap set)
    (size : axmap.nrBits = f.ioSize / o.minBs) (drawn : Nat) :
    ∃ answer later, getNextRandOffset random o (withMap f axmap drawn) =
        some (answer, withMap f axmap later) ∧
      (answer = none → ∀ number < axmap.nrBits, number ∈ set) ∧
      ∀ block, answer = some block → block < axmap.nrBits ∧ block ∉ set := by
  have countable := job.countable
  simp only [getNextRandOffset, withMap, lastBlock_eq job, ← size]
  by_cases empty : axmap.nrBits = 0
  · rw [if_pos empty]
    refine ⟨none, drawn, rfl, fun _ number inside => ?_, fun block same => by cases same⟩
    omega
  · rw [if_neg empty]
    obtain ⟨answer, looked, meaning⟩ :=
      mapRandOffset_spec job holds (by rw [noBit]; omega) (below drawn _ (Nat.pos_of_ne_zero empty))
    refine ⟨answer, drawn + 1, ?_, meaning⟩
    rw [looked]
    rfl

include below job in
theorem getNextRandBlock_spec {axmap : Axmap} {set : Set Nat} (holds : HoldsSet axmap set)
    (size : axmap.nrBits = f.ioSize / o.minBs) (drawn : Nat) :
    ∃ answer next later after, getNextRandBlock random o (withMap f axmap drawn) =
        some (answer, withMap f next later) ∧ next.nrBits = axmap.nrBits ∧
      HoldsSet next after ∧ Chosen axmap.nrBits (Renews o) set answer after := by
  obtain ⟨answer, later, looked, whenNone, whenSome⟩ :=
    getNextRandOffset_spec below job holds size drawn
  rw [getNextRandBlock, looked, Option.bind_eq_bind, Option.bind_some]
  cases answer with
  | some b =>
      exact ⟨some b, axmap, later, set, rfl, rfl, holds,
        .free (whenSome b rfl).1 (whenSome b rfl).2⟩
  | none =>
      have all := whenNone rfl
      by_cases renews : Renews o
      · have emptied := axmapReset_spec holds
        obtain ⟨again, latest, lookedAgain, stillNone, stillSome⟩ :=
          getNextRandOffset_spec below job emptied size later
        refine ⟨again, axmapReset axmap, latest, ∅, ?_, rfl, emptied, ?_⟩
        · exact (if_pos renews).trans lookedAgain
        · cases again with
          | some b => exact .renewed (stillSome b rfl).1 all renews
          | none =>
              have nothing : axmap.nrBits = 0 := by
                by_contra positive
                exact (stillNone rfl 0 (Nat.pos_of_ne_zero positive)).elim
              have isEmpty : set = ∅ := by
                ext number
                exact ⟨fun member => by have := holds.below number member; omega, False.elim⟩
              rw [← isEmpty]
              exact .spent all (Or.inr nothing)
      · refine ⟨none, axmap, later, set, ?_, rfl, holds, .spent all (Or.inl renews)⟩
        exact if_neg renews

/-- One I/O in terms of blocks: a run of blocks that the map did not have, or
nothing. -/
inductive PassStep (blocks : Nat) (renews : Prop) (set : Set Nat) :
    Option (Nat × Nat) → Set Nat → Prop
  | issued {start : Set Nat} {b count : Nat} (chosen : Chosen blocks renews set (some b) start)
      (positive : 0 < count) (inside : b + count ≤ blocks)
      (free : ∀ step < count, b + step ∉ start) :
      PassStep blocks renews set (some (b, count)) (start ∪ numbersFrom b count)
  | spent (chosen : Chosen blocks renews set none set) : PassStep blocks renews set none set

/-- The offset and the length of a run of blocks. -/
def ioOf (o : RandomOptions) (f : RandomFile) (piece : Nat × Nat) : Nat × Nat :=
  (piece.1 * o.minBs + f.fileOffset, piece.2 * o.minBs)

include job in
theorem markRandomMap_spec {axmap : Axmap} {set : Set Nat} (holds : HoldsSet axmap set)
    {b asked : Nat} (free : b ∉ set) (positive : 0 < asked) (small : asked < 4294967296)
    (inside : b + asked ≤ axmap.nrBits) :
    ∃ next count, markRandomMap o axmap f.fileOffset (b * o.minBs + f.fileOffset)
          (asked * o.minBs) = some (next, count * o.minBs) ∧
      0 < count ∧ count ≤ asked ∧ (∀ step < count, b + step ∉ set) ∧
      next.nrBits = axmap.nrBits ∧ HoldsSet next (set ∪ numbersFrom b count) := by
  obtain ⟨next, count, called, run, sameBits, after⟩ :=
    axmapSetNr_spec holds (by omega : b < axmap.nrBits) inside
  have blockIs : (b * o.minBs + f.fileOffset - f.fileOffset) / o.minBs = b := by
    rw [Nat.add_sub_cancel, Nat.mul_div_cancel _ job.positive]
  have blocksAre : (asked * o.minBs + o.minBs - 1) / o.minBs = asked := by
    have positive := job.positive
    rw [Nat.add_sub_assoc (by omega), Nat.mul_comm, Nat.mul_add_div positive,
      Nat.div_eq_of_lt (by omega), Nat.add_zero]
  have counted : count ≠ 0 := by
    intro zero
    have member := run.stopped (by omega)
    rw [zero, Nat.add_zero] at member
    exact free member
  have trimmed : (if count * o.minBs < asked * o.minBs then count * o.minBs
      else asked * o.minBs) = count * o.minBs := by
    by_cases less : count * o.minBs < asked * o.minBs
    · rw [if_pos less]
    · rw [if_neg less]
      exact Nat.le_antisymm (Nat.not_lt.mp less) (Nat.mul_le_mul_right _ run.within)
  refine ⟨next, count, ?_, Nat.pos_of_ne_zero counted, run.within, run.free, sameBits, after⟩
  rw [markRandomMap, blockIs, blocksAre, if_neg (by omega), Nat.mod_eq_of_lt small, called,
    Option.bind_eq_bind, Option.bind_some]
  simp only [if_neg counted, trimmed]

include job in
theorem blockOffset_eq {map : Option Axmap} {b : Nat} (inside : b < f.ioSize / o.minBs) :
    blockOffset o { f with ioAxmap := map } b = some (b * o.minBs + f.fileOffset) := by
  have contained := job.contained
  have starts : b * o.minBs < f.ioSize := by
    rw [Nat.lt_div_iff_mul_lt job.positive] at inside
    omega
  simp only [blockOffset, job.aligned]
  rw [if_neg (by omega), if_neg (by omega)]

include below job in
theorem fillIoU_spec {axmap : Axmap} {set : Set Nat} (holds : HoldsSet axmap set)
    (size : axmap.nrBits = f.ioSize / o.minBs) {nextBuflen : Nat → Nat}
    (asks : AsksBlocks o f nextBuflen) (drawn : Nat) :
    ∃ piece next later after, fillIoU random o nextBuflen (withMap f axmap drawn) =
        some (piece.map (ioOf o f), withMap f next later) ∧ next.nrBits = axmap.nrBits ∧
      HoldsSet next after ∧ PassStep (f.ioSize / o.minBs) (Renews o) set piece after := by
  obtain ⟨answer, chosenMap, later, start, found, sameBits, startHolds, chosen⟩ :=
    getNextRandBlock_spec below job holds size drawn
  rw [fillIoU, found, Option.bind_eq_bind, Option.bind_some]
  rw [size] at chosen
  cases answer with
  | none =>
      refine ⟨none, chosenMap, later, start, rfl, sameBits, startHolds, ?_⟩
      cases chosen with
      | spent all ends => exact .spent (.spent all ends)
  | some b =>
      have chosenFree : b < f.ioSize / o.minBs ∧ b ∉ start := by
        cases chosen with
        | free inside free => exact ⟨inside, free⟩
        | renewed inside _ _ => exact ⟨inside, id⟩
      obtain ⟨inside, free⟩ := chosenFree
      obtain ⟨asked, positive, small, fits, answered⟩ := asks b inside
      obtain ⟨next, count, marked, counted, within, run, lastBits, after⟩ :=
        markRandomMap_spec job startHolds free positive small (by omega)
      refine ⟨some (b, count), next, later, _, ?_, by omega, after,
        .issued chosen counted (by omega) run⟩
      have ends : b * o.minBs + asked * o.minBs ≤ f.ioSize := by
        rw [← Nat.add_mul]
        exact Nat.le_trans (Nat.mul_le_mul_right _ fits) (Nat.div_mul_le_self _ _)
      have contained := job.contained
      have someBytes : 0 < asked * o.minBs := Nat.mul_pos positive job.positive
      have goes : ¬ (asked * o.minBs = 0 ∨
          f.realFileSize < b * o.minBs + f.fileOffset + asked * o.minBs) := by omega
      simp only [withMap, Option.bind_some, blockOffset_eq job inside, answered, if_neg goes,
        job.mapped, marked]
      rfl

end Job

/-! ## Passes -/

/-- How often the runs of blocks touch a block. -/
def timesCovered (pieces : List (Nat × Nat)) (number : Nat) : Nat :=
  pieces.countP fun piece => decide (piece.1 ≤ number ∧ number < piece.1 + piece.2)

/-- No block is touched twice. -/
def PartPass (blocks : Nat) (pieces : List (Nat × Nat)) : Prop :=
  ∀ number < blocks, timesCovered pieces number ≤ 1

/-- Every block is touched exactly once. -/
def WholePass (blocks : Nat) (pieces : List (Nat × Nat)) : Prop :=
  ∀ number < blocks, timesCovered pieces number = 1

inductive PassRun (blocks : Nat) (renews : Prop) : Set Nat → List (Option (Nat × Nat)) → Prop
  | nil (set : Set Nat) : PassRun blocks renews set []
  | cons {set after : Set Nat} {piece : Option (Nat × Nat)} {rest : List (Option (Nat × Nat))}
      (step : PassStep blocks renews set piece after) (others : PassRun blocks renews after rest) :
      PassRun blocks renews set (piece :: rest)

/-- The set of the map is what the pieces of the pass have touched, each block once. -/
structure Touched (blocks : Nat) (set : Set Nat) (pieces : List (Nat × Nat)) : Prop where
  once : PartPass blocks pieces
  iff : ∀ number < blocks, number ∈ set ↔ timesCovered pieces number = 1

theorem touched_nil (blocks : Nat) : Touched blocks ∅ [] where
  once := fun _ _ => Nat.zero_le _
  iff := fun number _ => by
    constructor
    · exact False.elim
    · intro covered
      cases covered

theorem Touched.append {blocks : Nat} {set : Set Nat} {pieces : List (Nat × Nat)}
    (touched : Touched blocks set pieces) {b count : Nat}
    (free : ∀ step < count, b + step ∉ set) :
    Touched blocks (set ∪ numbersFrom b count) (pieces ++ [(b, count)]) := by
  have counts : ∀ number, timesCovered (pieces ++ [(b, count)]) number =
      timesCovered pieces number + if b ≤ number ∧ number < b + count then 1 else 0 := by
    intro number
    rw [timesCovered, List.countP_append, List.countP_singleton, timesCovered]
    simp only [decide_eq_true_eq]
  have notBefore : ∀ number < blocks, b ≤ number ∧ number < b + count →
      timesCovered pieces number = 0 := by
    intro number inside new
    have missing := free (number - b) (by omega)
    rw [Nat.add_sub_cancel' new.1, touched.iff number inside] at missing
    have := touched.once number inside
    omega
  refine ⟨fun number inside => ?_, fun number inside => ?_⟩
  · rw [counts]
    by_cases new : b ≤ number ∧ number < b + count
    · rw [if_pos new, notBefore number inside new]
    · rw [if_neg new]
      exact touched.once number inside
  · rw [counts, mem_add_run]
    by_cases new : b ≤ number ∧ number < b + count
    · rw [if_pos new, notBefore number inside new]
      exact ⟨fun _ => rfl, fun _ => Or.inr new⟩
    · rw [if_neg new, Nat.add_zero, ← touched.iff number inside]
      exact ⟨fun either => either.resolve_right new, Or.inl⟩

theorem Touched.whole {blocks : Nat} {set : Set Nat} {pieces : List (Nat × Nat)}
    (touched : Touched blocks set pieces) (all : ∀ number < blocks, number ∈ set) :
    WholePass blocks pieces :=
  fun number inside => (touched.iff number inside).mp (all number inside)

theorem PassRun.inside {blocks : Nat} {renews : Prop} {set : Set Nat}
    {results : List (Option (Nat × Nat))} (run : PassRun blocks renews set results) :
    ∀ piece, some piece ∈ results → 0 < piece.2 ∧ piece.1 + piece.2 ≤ blocks := by
  induction run with
  | nil set => intro piece member; cases member
  | cons step others ih =>
      intro piece member
      rcases List.mem_cons.mp member with same | later
      · cases step with
        | issued chosen positive inside free =>
            cases same
            exact ⟨positive, inside⟩
        | spent chosen => cases same
      · exact ih piece later

/-- A pass has at most as many I/Os as blocks. -/
theorem PartPass.length_le {blocks : Nat} {pieces : List (Nat × Nat)}
    (part : PartPass blocks pieces)
    (inside : ∀ piece ∈ pieces, 0 < piece.2 ∧ piece.1 + piece.2 ≤ blocks) :
    pieces.length ≤ blocks := by
  -- no two I/Os of a pass start with the same block
  have firsts : (pieces.map Prod.fst).Nodup := by
    rw [List.nodup_iff_count_le_one]
    intro number
    by_cases member : number ∈ pieces.map Prod.fst
    · obtain ⟨piece, pieceMember, rfl⟩ := List.mem_map.mp member
      have bounds := inside piece pieceMember
      refine Nat.le_trans ?_ (part piece.1 (by omega))
      rw [List.count_eq_countP, List.countP_map, timesCovered]
      apply List.countP_mono_left
      intro other otherMember same
      have otherBounds := inside other otherMember
      simp only [Function.comp_apply, beq_iff_eq] at same
      simp only [decide_eq_true_eq]
      omega
    · rw [List.count_eq_zero_of_not_mem member]
      exact Nat.zero_le 1
  have within : pieces.map Prod.fst ⊆ List.range blocks := by
    intro number member
    obtain ⟨piece, pieceMember, rfl⟩ := List.mem_map.mp member
    have bounds := inside piece pieceMember
    rw [List.mem_range]
    omega
  have bounded := (firsts.subperm within).length_le
  rwa [List.length_map, List.length_range] at bounded

/-- With every block touched, a job that does not start again gets nothing more. -/
theorem PassRun.refused {blocks : Nat} {renews : Prop} (ends : ¬ renews) :
    ∀ {results : List (Option (Nat × Nat))} {set : Set Nat},
      (∀ number < blocks, number ∈ set) → PassRun blocks renews set results →
      results = List.replicate results.length none := by
  intro results
  induction results with
  | nil => intro set _ _; rfl
  | cons piece rest ih =>
      intro set all run
      cases run with
      | cons step others =>
          cases step with
          | issued chosen positive inside free =>
              cases chosen with
              | renewed _ _ again => exact absurd again ends
              | free chosenInside chosenFree => exact absurd (all _ chosenInside) chosenFree
          | spent chosen =>
              rw [List.length_cons, List.replicate_succ, ← ih all others]

/-- A job that does not start again: its I/Os are one pass, and it stops issuing
I/Os when the pass is whole, not before. -/
theorem PassRun.one_pass {blocks : Nat} {renews : Prop} (ends : ¬ renews) :
    ∀ {results : List (Option (Nat × Nat))} {set : Set Nat} {before : List (Nat × Nat)},
      Touched blocks set before → PassRun blocks renews set results →
      ∃ pieces refused, results = pieces.map some ++ List.replicate refused none ∧
        PartPass blocks (before ++ pieces) ∧
        (0 < refused → WholePass blocks (before ++ pieces)) := by
  intro results
  induction results with
  | nil =>
      intro set before touched _
      refine ⟨[], 0, rfl, ?_, fun positive => absurd positive (lt_irrefl 0)⟩
      rw [List.append_nil]
      exact touched.once
  | cons piece rest ih =>
      intro set before touched run
      cases run with
      | cons step others =>
          cases step with
          | issued chosen positive inside free =>
              cases chosen with
              | renewed _ _ again => exact absurd again ends
              | free chosenInside chosenFree =>
                  obtain ⟨pieces, refused, same, part, whole⟩ := ih (touched.append free) others
                  rw [List.append_assoc, List.singleton_append] at part whole
                  exact ⟨_ :: pieces, refused, by rw [same]; rfl, part, whole⟩
          | spent chosen =>
              cases chosen with
              | spent all _ =>
                  refine ⟨[], rest.length + 1, ?_, ?_, fun _ => ?_⟩
                  · rw [List.map_nil, List.nil_append, List.replicate_succ,
                      ← others.refused ends all]
                  · rw [List.append_nil]
                    exact touched.once
                  · rw [List.append_nil]
                    exact touched.whole all

/-- A job that starts again: every I/O is issued, and the I/Os are whole passes
one after the other, then a part of one. -/
theorem PassRun.passes {blocks : Nat} {renews : Prop} (again : renews) (someBlock : 0 < blocks) :
    ∀ {results : List (Option (Nat × Nat))} {set : Set Nat} {before : List (Nat × Nat)},
      Touched blocks set before → PassRun blocks renews set results →
      ∃ (pieces : List (Nat × Nat)) (passes : List (List (Nat × Nat)))
        (current : List (Nat × Nat)), results = pieces.map some ∧
        before ++ pieces = passes.flatten ++ current ∧
        (∀ pass ∈ passes, WholePass blocks pass) ∧ PartPass blocks current := by
  intro results
  induction results with
  | nil =>
      intro set before touched _
      refine ⟨[], [], before, rfl, ?_, ?_, touched.once⟩
      · rw [List.append_nil, List.flatten_nil, List.nil_append]
      · intro pass member
        cases member
  | cons piece rest ih =>
      intro set before touched run
      cases run with
      | cons step others =>
          cases step with
          | spent chosen =>
              cases chosen with
              | spent _ ends => exact absurd again (ends.resolve_right (by omega))
          | issued chosen positive inside free =>
              cases chosen with
              | free chosenInside chosenFree =>
                  obtain ⟨pieces, passes, current, same, split, whole, part⟩ :=
                    ih (touched.append free) others
                  rw [List.append_assoc, List.singleton_append] at split
                  exact ⟨_ :: pieces, passes, current, by rw [same]; rfl, split, whole, part⟩
              | renewed _ all _ =>
                  obtain ⟨pieces, passes, current, same, split, whole, part⟩ :=
                    ih ((touched_nil blocks).append free) others
                  refine ⟨_ :: pieces, before :: passes, current, by rw [same]; rfl, ?_, ?_, part⟩
                  · rw [List.flatten_cons, List.append_assoc, ← split]
                    rfl
                  · intro pass member
                    rcases List.mem_cons.mp member with rfl | earlier
                    · exact touched.whole all
                    · exact whole pass earlier

theorem fillIoUs_spec {random : Nat → Nat → Nat} (below : DrawsBelow random)
    {o : RandomOptions} {f : RandomFile} (job : MappedJob o f) :
    ∀ (asked : List (Nat → Nat)) {axmap : Axmap} {set : Set Nat} (drawn : Nat),
      HoldsSet axmap set → axmap.nrBits = f.ioSize / o.minBs →
      (∀ nextBuflen ∈ asked, AsksBlocks o f nextBuflen) →
      ∃ results td, fillIoUs random o asked (withMap f axmap drawn) =
          some (results.map (Option.map (ioOf o f)), td) ∧ results.length = asked.length ∧
        PassRun (f.ioSize / o.minBs) (Renews o) set results := by
  intro asked
  induction asked with
  | nil =>
      intro axmap set drawn _ _ _
      exact ⟨[], _, rfl, rfl, .nil set⟩
  | cons nextBuflen rest ih =>
      intro axmap set drawn holds size asks
      obtain ⟨piece, next, later, after, filled, sameBits, nextHolds, step⟩ :=
        fillIoU_spec below job holds size (asks nextBuflen List.mem_cons_self) drawn
      obtain ⟨results, td, run, length, others⟩ :=
        ih later nextHolds (by omega)
          (fun other member => asks other (List.mem_cons_of_mem nextBuflen member))
      refine ⟨piece :: results, td, ?_, by rw [List.length_cons, List.length_cons, length],
        .cons step others⟩
      simp only [fillIoUs, filled, run, Option.bind_eq_bind, Option.bind_some, List.map_cons]

/-- `init_random_map` leaves a file whose map is empty. -/
theorem initRandomMap_spec {o : RandomOptions} {f : RandomFile} (job : MappedJob o f)
    {heap : Nat → Option (Nat → BitVec 64)}
    (granted : ∀ request, ∃ block, heap request = some block) :
    ∃ axmap, initRandomMap o heap f = some { f with ioAxmap := some axmap } ∧
      axmap.nrBits = f.ioSize / o.minBs ∧ HoldsSet axmap ∅ := by
  obtain ⟨axmap, made⟩ := axmapNew_granted granted (f.ioSize / o.minBs)
  have contained := job.contained
  have smaller : min f.realFileSize f.ioSize = f.ioSize := by omega
  refine ⟨axmap, ?_, axmapNew_spec job.countable made⟩
  simp only [initRandomMap, job.noZones, Bool.false_eq_true, if_false, job.mapped, smaller,
    job.smallest, made]

end RaptorMark.Fio
