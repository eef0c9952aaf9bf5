import RaptorMark.Fio.Axmap

/-!
# fio's shared memory

`smalloc.c`: pools of memory in blocks of 32 bytes, with one bit for each block.
An allocation is a run of blocks that starts with a header; the header keeps the
size, and the marks of the red zones around it stand for a header that is there.
Programs write inside their allocations only, so that headers stay as they were
written.

Pools are mapped apart from each other, so a pointer is a pool and an offset.
`none` stands for a failed assertion or an access outside the bitmap.  What the
machine makes of a shift by the width of the word or more, which C leaves open,
is the parameter `wild`.
-/

set_option autoImplicit false

namespace RaptorMark.Fio.Smalloc

open Fio

def bpb : Nat := 32

def bpi : Nat := 32

def bpl : Nat := bpb * bpi

def hdrSize : Nat := 16

/-- `nr_blocks` is the length of the bitmap; `headers` holds the sizes of the
headers that have been written, by the offset of the header. -/
structure Pool where
  bitmap : List (BitVec 32)
  freeBlocks : Nat
  nextNonFull : Nat
  headers : Nat → Option Nat

def sizeToBlocks (size : Nat) : Nat := (size + bpb - 1) / bpb

/-! ## Runs of blocks -/

def maskCmp (map mask : BitVec 32) : Option (Bool × BitVec 32) := some (map &&& mask == 0#32, map)

def maskClear (map mask : BitVec 32) : Option (Bool × BitVec 32) :=
  if map &&& mask = mask then some (true, map &&& ~~~mask) else none

def maskSet (map mask : BitVec 32) : Option (Bool × BitVec 32) :=
  if map &&& mask = 0#32 then some (true, map ||| mask) else none

section Shifts

variable (wild : BitVec 32 → Nat → BitVec 32)

/-- `<<` on an `unsigned int`. -/
def shl (word : BitVec 32) (count : Nat) : BitVec 32 :=
  if count < 32 then word <<< count else wild word count

def blocksMask (thisBlocks idx : Nat) : BitVec 32 :=
  if thisBlocks = bpi then BitVec.allOnes 32 else shl wild (shl wild 1#32 thisBlocks - 1#32) idx

/-- The blocks of this word: as many as are left, or up to the end of the word,
in the arithmetic of `unsigned int`. -/
def blocksHere (idx nrBlocks : Nat) : Nat :=
  let thisBlocks := nrBlocks % 4294967296
  if bpi < (thisBlocks + idx) % 4294967296 then (bpi + 4294967296 - idx) % 4294967296
  else thisBlocks

def blocksIter (func : BitVec 32 → BitVec 32 → Option (Bool × BitVec 32))
    (bitmap : List (BitVec 32)) (poolIdx idx nrBlocks : Nat) :
    Option (Bool × List (BitVec 32)) :=
  if nrBlocks = 0 then some (true, bitmap)
  else if inside : poolIdx < bitmap.length then
    let thisBlocks := blocksHere idx nrBlocks
    match func bitmap[poolIdx] (blocksMask wild thisBlocks idx) with
    | none => none
    | some (false, _) => some (false, bitmap)
    | some (true, word) =>
        blocksIter func (bitmap.set poolIdx word) (poolIdx + 1) 0
          ((nrBlocks + 18446744073709551616 - thisBlocks) % 18446744073709551616)
  else some (false, bitmap)
termination_by bitmap.length - poolIdx
decreasing_by
  rw [List.length_set]
  omega

def blocksFree (bitmap : List (BitVec 32)) (poolIdx idx nrBlocks : Nat) : Bool :=
  (blocksIter wild maskCmp bitmap poolIdx idx nrBlocks).any Prod.fst

def setBlocks (bitmap : List (BitVec 32)) (poolIdx idx nrBlocks : Nat) :
    Option (List (BitVec 32)) :=
  (blocksIter wild maskSet bitmap poolIdx idx nrBlocks).map Prod.snd

def clearBlocks (bitmap : List (BitVec 32)) (poolIdx idx nrBlocks : Nat) :
    Option (List (BitVec 32)) :=
  (blocksIter wild maskClear bitmap poolIdx idx nrBlocks).map Prod.snd

/-! ## Finding a run -/

/-- The word is a signed `int`: the shift keeps its sign, and so does the
conversion to the argument of `ffz`. -/
def findNextZero (word : BitVec 32) (start : Nat) : Nat :=
  ffz ((word.sshiftRight start).signExtend 64) + start

theorem blocksFree_zero (bitmap : List (BitVec 32)) (poolIdx idx : Nat) :
    blocksFree wild bitmap poolIdx idx 0 = true := by
  rw [blocksFree, blocksIter, if_pos rfl]
  rfl

/-- The loop of `__smalloc_pool`: where the next run of free blocks is. -/
def findRun (bitmap : List (BitVec 32)) (nrBlocks i lastIdx : Nat) : Option (Nat × Nat) :=
  if inside : i < bitmap.length then
    if bitmap[i] = BitVec.allOnes 32 then findRun bitmap nrBlocks (i + 1) 0
    else
      let idx := findNextZero bitmap[i] lastIdx
      if free : blocksFree wild bitmap i idx nrBlocks = true then some (i, idx)
      else if idx + nrBlocks < bpi then findRun bitmap nrBlocks i (idx + nrBlocks)
      else findRun bitmap nrBlocks (i + (idx + nrBlocks) / bpi) 0
  else none
termination_by (bitmap.length - i, bpi - lastIdx)
decreasing_by
  · exact Prod.Lex.left _ _ (by omega)
  · refine Prod.Lex.right _ ?_
    have some : nrBlocks ≠ 0 := by
      rintro rfl
      exact free (blocksFree_zero wild bitmap i _)
    have later : lastIdx ≤ findNextZero bitmap[i] lastIdx := Nat.le_add_left _ _
    omega
  · have next : 0 < (findNextZero bitmap[i] lastIdx + nrBlocks) / bpi :=
      Nat.div_pos (by omega) (by decide)
    exact Prod.Lex.left _ _ (by omega)

def findBestIndex (bitmap : List (BitVec 32)) (i : Nat) : Option Nat :=
  if inside : i < bitmap.length then
    if bitmap[i] = BitVec.allOnes 32 then
      match if i = bitmap.length - 1 then bitmap.findIdx? (· ≠ BitVec.allOnes 32) else none with
      | some j => some j
      | none => findBestIndex bitmap (i + 1)
    else some i
  else none
termination_by bitmap.length - i

/-! ## One pool -/

/-- `__smalloc_pool`: the offset of the run, if the pool has one. -/
def smallocBlocks (pool : Pool) (size : Nat) : Option (Option Nat × Pool) :=
  let nrBlocks := sizeToBlocks size
  if pool.freeBlocks < nrBlocks then some (none, pool)
  else if pool.freeBlocks = 0 then none
  else do
    let nextNonFull ← findBestIndex pool.bitmap pool.nextNonFull
    match findRun wild pool.bitmap nrBlocks nextNonFull 0 with
    | none => some (none, { pool with nextNonFull })
    | some (i, idx) =>
        let bitmap ← setBlocks wild pool.bitmap i idx nrBlocks
        some (some (i * bpl + idx * bpb),
          { pool with bitmap, nextNonFull, freeBlocks := pool.freeBlocks - nrBlocks })

/-- The header, the red zone behind, and the size a multiple of four. -/
def sizeToAllocSize (size : Nat) : Nat := (size + hdrSize + 4 + 3) / 4 * 4

/-- `postred_ptr`: where the four bytes of the red zone behind start, for a
header at this offset of a pool, which is mapped at the start of a page. -/
def postredPtr (header allocSize : Nat) : Nat := (header + allocSize - 4 + 3) / 4 * 4

def smallocPool (pool : Pool) (size : Nat) : Option (Option Nat × Pool) := do
  let allocSize := sizeToAllocSize size
  match ← smallocBlocks wild pool allocSize with
  | (none, pool) => some (none, pool)
  | (some offset, pool) =>
      some (some (offset + hdrSize),
        { pool with headers := Function.update pool.headers offset (some allocSize) })

def ptrValid (pool : Pool) (offset : Nat) : Bool := offset < pool.bitmap.length * bpl % 4294967296

def sfreePool (pool : Pool) (ptr : Nat) : Option Pool := do
  let offset := ptr - hdrSize
  if !ptrValid pool offset then none else
  let size ← pool.headers offset
  let i := offset / bpl
  let idx := offset % bpl / bpb
  let bitmap ← clearBlocks wild pool.bitmap i idx (sizeToBlocks size)
  some { pool with
    bitmap
    nextNonFull := if i < pool.nextNonFull then i else pool.nextNonFull
    freeBlocks := pool.freeBlocks + sizeToBlocks size }

end Shifts

/-! ## All pools -/

structure Heap where
  mp : List Pool
  lastPool : Nat

structure Ptr where
  pool : Nat
  offset : Nat
deriving DecidableEq

def maxPools : Nat := 16

/-- The words of the bitmap, for an allocation size with the space for a header
and a red zone. -/
def bitmapBlocks (allocSize : Nat) : Nat :=
  let allocSize := allocSize + 4 + hdrSize
  let allocSize := if allocSize < 16777216 then 16777216 else allocSize
  (allocSize + bpl - 1) / bpl

def mmapSize (allocSize : Nat) : Nat := bitmapBlocks allocSize * bpl + bitmapBlocks allocSize * 4

/-- `add_pool`, where the size of the mapping is an `unsigned int` and `mmap`
grants it. -/
def addPool (heap : Heap) (allocSize : Nat) : Heap :=
  if heap.mp.length = maxPools then heap
  else
    let pool : Pool :=
      { bitmap := List.replicate (bitmapBlocks allocSize) 0#32
        freeBlocks := bitmapBlocks allocSize * bpi
        nextNonFull := 0
        headers := fun _ => none }
    { heap with mp := heap.mp ++ [pool] }

section Shifts

variable (wild : BitVec 32 → Nat → BitVec 32)

def sfree (heap : Heap) (ptr : Ptr) : Option Heap := do
  let pool ← heap.mp[ptr.pool]?
  if !ptrValid pool ptr.offset then some heap
  else
    let pool ← sfreePool wild pool ptr.offset
    some { heap with mp := heap.mp.set ptr.pool pool }

/-- The loop of `smalloc_debug` over these pools, for a size that is not zero:
each pool with enough free blocks is tried once more. -/
def debugPools (size : Nat) : List Nat → Heap → Option Heap
  | [], heap => some heap
  | i :: rest, heap => do
      let pool ← heap.mp[i]?
      if sizeToBlocks (sizeToAllocSize size) ≤ pool.freeBlocks then
        match ← smallocPool wild pool size with
        | (some offset, pool) =>
            let heap ← sfree wild { heap with mp := heap.mp.set i pool } ⟨i, offset⟩
            debugPools size rest { heap with lastPool := i }
        | (none, pool) => debugPools size rest { heap with mp := heap.mp.set i pool }
      else debugPools size rest heap

def smallocDebug (heap : Heap) (size : Nat) : Option Heap :=
  if size = 0 then some heap else debugPools wild size (List.range heap.mp.length) heap

/-- One round of the `for` loop of `smalloc`, over these pools. -/
def tryPools (size : Nat) : List Nat → Heap → Option (Option Ptr × Heap)
  | [], heap => some (none, heap)
  | i :: rest, heap => do
      let pool ← heap.mp[i]?
      match ← smallocPool wild pool size with
      | (some offset, pool) =>
          some (some ⟨i, offset⟩, { mp := heap.mp.set i pool, lastPool := i })
      | (none, pool) => tryPools size rest { heap with mp := heap.mp.set i pool }

/-- The pools from the last one on are tried first, then those before it. -/
def trySearch (heap : Heap) (size : Nat) : Option (Option Ptr × Heap) := do
  let last := heap.lastPool
  match ← tryPools wild size ((List.range heap.mp.length).drop last) heap with
  | (some ptr, heap) => some (some ptr, heap)
  | (none, heap) =>
      if last ≠ 0 then tryPools wild size (List.range last) { heap with lastPool := 0 }
      else some (none, heap)

def smalloc (heap : Heap) (size : Nat) : Option (Option Ptr × Heap) :=
  if 4294967296 ≤ size then some (none, heap)
  else do
    match ← trySearch wild heap size with
    | (some ptr, heap) => some (some ptr, heap)
    | (none, heap) =>
        let heap ← smallocDebug wild heap size
        some (none, heap)

def scalloc (heap : Heap) (nmemb size : Nat) : Option (Option Ptr × Heap) :=
  smalloc wild heap (nmemb * size % 18446744073709551616)

end Shifts

end RaptorMark.Fio.Smalloc
