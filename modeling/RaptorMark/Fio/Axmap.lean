import RaptorMark.Lib.PackedBits

/-!
# The bitmap of bitmaps

`lib/axmap.c` with `lib/ffz.h`, on a machine whose `unsigned long` has 64 bits.
Level zero has one bit for every number of the set; a bit of a level above says
that a whole word of the level below is set.  Setting a bit walks the levels
upwards as long as words fill up, a membership test and the search for a free
bit walk them downwards.

The operations that read or write a map return `none` where the code would
leave the array or fail an assertion.  Bit numbers are natural numbers; the
operators of the source that can wrap carry the modulus of their type.
-/

set_option autoImplicit false

namespace RaptorMark.Fio

open Lib.PackedBits

/-! ## `lib/ffz.h` -/

/-- One `if` of `ffs64`: a clear low part is shifted out and counted. -/
def ffsHalf (mask : BitVec 64) (half : Nat) (search : Nat × BitVec 64) : Nat × BitVec 64 :=
  if search.2 &&& mask = 0#64 then (search.1 + half, search.2 >>> half) else search

def ffs64 (word : BitVec 64) : Nat :=
  let search := ffsHalf 0xffffffff#64 32 (0, word)
  let search := ffsHalf 0xffff#64 16 search
  let search := ffsHalf 0xff#64 8 search
  let search := ffsHalf 0xf#64 4 search
  let search := ffsHalf 3#64 2 search
  if search.2 &&& 1#64 = 0#64 then search.1 + 1 else search.1

def ffz (bitmask : BitVec 64) : Nat := ffs64 (~~~bitmask)

/-! ## The map -/

def unitShift : Nat := 6

def blocksPerUnit : Nat := 1 <<< unitShift

def blocksPerUnitMask : Nat := blocksPerUnit - 1

def bitMasks : List (BitVec 64) :=
  [0x0000000000000000, 0x0000000000000001, 0x0000000000000003, 0x0000000000000007,
    0x000000000000000f, 0x000000000000001f, 0x000000000000003f, 0x000000000000007f,
    0x00000000000000ff, 0x00000000000001ff, 0x00000000000003ff, 0x00000000000007ff,
    0x0000000000000fff, 0x0000000000001fff, 0x0000000000003fff, 0x0000000000007fff,
    0x000000000000ffff, 0x000000000001ffff, 0x000000000003ffff, 0x000000000007ffff,
    0x00000000000fffff, 0x00000000001fffff, 0x00000000003fffff, 0x00000000007fffff,
    0x0000000000ffffff, 0x0000000001ffffff, 0x0000000003ffffff, 0x0000000007ffffff,
    0x000000000fffffff, 0x000000001fffffff, 0x000000003fffffff, 0x000000007fffffff,
    0x00000000ffffffff,
    0x00000001ffffffff, 0x00000003ffffffff, 0x00000007ffffffff, 0x0000000fffffffff,
    0x0000001fffffffff, 0x0000003fffffffff, 0x0000007fffffffff, 0x000000ffffffffff,
    0x000001ffffffffff, 0x000003ffffffffff, 0x000007ffffffffff, 0x00000fffffffffff,
    0x00001fffffffffff, 0x00003fffffffffff, 0x00007fffffffffff, 0x0000ffffffffffff,
    0x0001ffffffffffff, 0x0003ffffffffffff, 0x0007ffffffffffff, 0x000fffffffffffff,
    0x001fffffffffffff, 0x003fffffffffffff, 0x007fffffffffffff, 0x00ffffffffffffff,
    0x01ffffffffffffff, 0x03ffffffffffffff, 0x07ffffffffffffff, 0x0fffffffffffffff,
    0x1fffffffffffffff, 0x3fffffffffffffff, 0x7fffffffffffffff, 0xffffffffffffffff]

/-- `map_size` is the length of the map. -/
structure AxmapLevel where
  level : Nat
  map : List (BitVec 64)

structure Axmap where
  levels : List AxmapLevel
  nrBits : Nat

/-- `-1ULL`, the answer of a search that found no free bit. -/
def noBit : Nat := 0xffffffffffffffff

def axmapReset (axmap : Axmap) : Axmap :=
  { axmap with
    levels := axmap.levels.map fun al =>
      { al with map := List.replicate al.map.length 0#64 } }

/-- The `while` loop of `axmap_new` that counts the levels; `i` is an `unsigned int`. -/
def levelsAbove (i : Nat) : Nat :=
  if 1 < i then levelsAbove (((i + blocksPerUnit - 1) % 4294967296) >>> unitShift) + 1 else 0
termination_by i
decreasing_by
  have size : blocksPerUnit = 64 := rfl
  rw [size, unitShift, Nat.shiftRight_eq_div_pow]
  omega

/-- The words a bitmap of `nr_bits` bits takes, in 64-bit arithmetic. -/
def unitsFor (nrBits : Nat) : Nat :=
  ((nrBits + blocksPerUnit - 1) % 18446744073709551616) >>> unitShift

/-- The loop of `axmap_new` over the levels.  `heap` answers each request for
memory with the contents of the granted block, or refuses it. -/
def newLevels (heap : Nat → Option (Nat → BitVec 64)) : Nat → Nat → Nat → Option (List AxmapLevel)
  | 0, _, _ => some []
  | remaining + 1, level, nrBits => do
      let block ← heap (level + 2)
      let above ← newLevels heap remaining (level + 1) (unitsFor nrBits)
      some ({ level, map := (List.range (unitsFor nrBits)).map block } :: above)

def axmapNew (heap : Nat → Option (Nat → BitVec 64)) (nrBits : Nat) : Option Axmap := do
  let _ ← heap 0
  let nrLevels := levelsAbove (unitsFor nrBits % 4294967296) + 1
  let _ ← heap 1
  let levels ← newLevels heap nrLevels 0 nrBits
  some (axmapReset { levels, nrBits })

/-- The walk from level zero upwards until `func` answers true. -/
def axmapHandler {σ : Type}
    (func : AxmapLevel → Nat → Nat → σ → Option (Bool × AxmapLevel × σ)) :
    List AxmapLevel → Nat → σ → Option (Bool × List AxmapLevel × σ)
  | [], _, data => some (false, [], data)
  | al :: above, index, data => do
      let offset := index >>> unitShift
      let bit := index &&& blocksPerUnitMask
      let (done, al, data) ← func al offset bit data
      if done then
        some (true, al :: above, data)
      else
        let index := if index ≠ 0 then index >>> unitShift else index
        let (done, above, data) ← axmapHandler func above index data
        some (done, al :: above, data)

/-- The walk from the highest level downwards; the first argument counts the
levels that are left. -/
def axmapHandlerTopdown (func : AxmapLevel → Nat → Nat → Option Bool)
    (levels : List AxmapLevel) (bitNr : Nat) : Nat → Option Bool
  | 0 => some false
  | i + 1 => do
      let index := bitNr >>> (unitShift * i)
      let offset := index >>> unitShift
      let bit := index &&& blocksPerUnitMask
      let al ← levels[i]?
      if ← func al offset bit then
        some true
      else
        axmapHandlerTopdown func levels bitNr i

structure AxmapSetData where
  nrBits : Nat
  setBits : Nat

/-- `axmap_set_fn` from its first assertion on: the bits are written. -/
def writeBits (al : AxmapLevel) (offset bit nrBits : Nat) (data : AxmapSetData) :
    Option (Bool × AxmapLevel × AxmapSetData) := do
  let ones ← bitMasks[nrBits]?
  let mask := ones <<< bit
  let word ← al.map[offset]?
  if mask ≠ 0#64 ∧ word &&& mask = 0#64 then
    let setBits := if al.level = 0 then nrBits else data.setBits
    some (word ||| mask ≠ BitVec.allOnes 64,
      { al with map := al.map.set offset (word ||| mask) }, { nrBits := 1, setBits })
  else
    none

def axmapSetFn (al : AxmapLevel) (offset bit : Nat) (data : AxmapSetData) :
    Option (Bool × AxmapLevel × AxmapSetData) := do
  let nrBits := min data.nrBits (blocksPerUnit - bit)
  let ones ← bitMasks[nrBits]?
  let mask := ones <<< bit
  let word ← al.map[offset]?
  let overlap := word &&& mask
  -- only a contiguous region is set, whatever overlaps is cut off
  if overlap = mask then
    some (true, al, { data with setBits := 0 })
  else if overlap ≠ 0#64 then
    let nrBits := ffz (~~~overlap) - bit
    if nrBits = 0 then some (true, al, data) else writeBits al offset bit nrBits data
  else
    writeBits al offset bit nrBits data

/-- `__axmap_set`.  The number of bits it cuts at the end of the map is a local
variable that only the assertion reads. -/
def axmapSetWord (axmap : Axmap) (bitNr : Nat) (data : AxmapSetData) :
    Option (Axmap × AxmapSetData) :=
  if axmap.nrBits < bitNr then
    some (axmap, data)
  else
    let nrBits :=
      if axmap.nrBits < bitNr + data.nrBits then axmap.nrBits - bitNr else data.nrBits
    if nrBits ≤ blocksPerUnit then do
      let (_, levels, data) ← axmapHandler axmapSetFn axmap.levels bitNr data
      some ({ axmap with levels }, data)
    else
      none

def axmapSet (axmap : Axmap) (bitNr : Nat) : Option Axmap := do
  let (axmap, _) ← axmapSetWord axmap bitNr { nrBits := 1, setBits := 0 }
  some axmap

/-- The loop of `axmap_set_nr`.  A round that sets all the bits it asked for
leaves fewer to set, so the number of bits bounds the number of rounds. -/
def setRounds : Nat → Axmap → Nat → Nat → Nat → Option (Axmap × Nat)
  | 0, _, _, _, _ => none
  | rounds + 1, axmap, bitNr, nrBits, setBits => do
      let maxBits := blocksPerUnit - (bitNr &&& blocksPerUnitMask)
      let thisSet := if maxBits < nrBits then maxBits else nrBits
      let (axmap, data) ← axmapSetWord axmap bitNr { nrBits := thisSet, setBits := 0 }
      let setBits := setBits + data.setBits
      if data.setBits ≠ thisSet then
        some (axmap, setBits)
      else
        let nrBits := nrBits - data.setBits
        let bitNr := bitNr + data.setBits
        if nrBits ≠ 0 then setRounds rounds axmap bitNr nrBits setBits else some (axmap, setBits)

def axmapSetNr (axmap : Axmap) (bitNr nrBits : Nat) : Option (Axmap × Nat) :=
  setRounds (nrBits + 1) axmap bitNr nrBits 0

def axmapIssetFn (al : AxmapLevel) (offset bit : Nat) : Option Bool := do
  let word ← al.map[offset]?
  some (word &&& 1#64 <<< bit ≠ 0#64)

def axmapIsset (axmap : Axmap) (bitNr : Nat) : Option Bool :=
  if bitNr ≤ axmap.nrBits then
    axmapHandlerTopdown axmapIssetFn axmap.levels bitNr axmap.levels.length
  else
    some false

/-- The inner loop of `axmap_find_first_free`: the first word with a clear bit. -/
def scanWords : List (BitVec 64) → Nat → Option Nat
  | [], _ => none
  | word :: rest, offset =>
      if ~~~word ≠ 0#64 then some ((offset <<< unitShift) + ffz (~~~ ~~~word))
      else scanWords rest (offset + 1)

/-- The first clear bit of a level at or after `index`. -/
def firstFreeInLevel (al : AxmapLevel) (offset bit : Nat) : Option (Option Nat) := do
  let ones ← bitMasks[bit]?
  let word ← al.map[offset]?
  let temp := ~~~ones &&& ~~~word
  if temp ≠ 0#64 then
    some (some ((offset <<< unitShift) + ffz (~~~temp)))
  else
    some (scanWords (al.map.drop (offset + 1)) (offset + 1))

/-- The loop of `axmap_find_first_free` over the levels. -/
def firstFreeBelow (axmap : Axmap) (bitNr : Nat) : Nat → Nat → Option Nat
  | 0, index => some (if axmap.nrBits ≤ index then noBit else index)
  | i + 1, index => do
      let al ← axmap.levels[i]?
      let index := index <<< unitShift
      let baseIndex := bitNr >>> (unitShift * i)
      let index := if index < baseIndex then baseIndex else index
      let offset := index >>> unitShift
      let bit := index &&& blocksPerUnitMask
      if al.map.length ≤ offset then
        some noBit
      else
        match ← firstFreeInLevel al offset bit with
        | none => some noBit
        | some index => firstFreeBelow axmap bitNr i index

def axmapFindFirstFree (axmap : Axmap) (bitNr : Nat) : Option Nat :=
  firstFreeBelow axmap bitNr axmap.levels.length 0

def axmapNextFree (axmap : Axmap) (bitNr : Nat) : Option Nat :=
  if axmap.nrBits ≤ bitNr then
    some noBit
  else do
    let nextBit := if bitNr + 1 = axmap.nrBits then 0 else bitNr + 1
    let offset := nextBit >>> unitShift
    let bit := nextBit &&& blocksPerUnitMask
    let ones ← bitMasks[bit]?
    let al ← axmap.levels[0]?
    let word ← al.map[offset]?
    let temp := ~~~ones &&& ~~~word
    let ret ←
      if temp ≠ 0#64 then
        let ret := (offset <<< unitShift) + ffz (~~~temp)
        some (if axmap.nrBits ≤ ret then noBit else ret)
      else
        axmapFindFirstFree axmap nextBit
    if ret = noBit ∧ nextBit ≠ 0 then axmapFindFirstFree axmap 0 else some ret

end RaptorMark.Fio
