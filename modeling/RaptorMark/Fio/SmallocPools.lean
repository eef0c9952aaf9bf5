import Mathlib.Algebra.BigOperators.Group.List.Basic
import Mathlib.Order.Interval.Finset.Nat
import RaptorMark.Fio.SmallocBlocks

/-!
# Allocations in one pool

Which blocks of a pool are taken, which headers stand in it and how many blocks
are left, told by the allocations that are held.
-/

set_option autoImplicit false

namespace RaptorMark.Fio.Smalloc

open Lib.PackedBits

/-- An allocation as its holder knows it. -/
structure Held where
  ptr : Ptr
  size : Nat

namespace Held

def first (held : Held) : Nat := (held.ptr.offset - hdrSize) / bpb

def blocks (held : Held) : Nat := sizeToBlocks (sizeToAllocSize held.size)

def Covers (held : Held) (block : Nat) : Prop :=
  held.first ≤ block ∧ block < held.first + held.blocks

def BlocksApart (one other : Held) : Prop :=
  one.first + one.blocks ≤ other.first ∨ other.first + other.blocks ≤ one.first

theorem BlocksApart.symm {one other : Held} (apart : BlocksApart one other) :
    BlocksApart other one := Or.symm apart

end Held

theorem sizeToBlocks_bounds (size : Nat) :
    0 < sizeToBlocks (sizeToAllocSize size) ∧
      size + 20 ≤ 32 * sizeToBlocks (sizeToAllocSize size) ∧
      32 * sizeToBlocks (sizeToAllocSize size) ≤ size + 54 := by
  simp only [sizeToBlocks, sizeToAllocSize, show bpb = 32 from rfl, show hdrSize = 16 from rfl]
  omega

theorem Held.blocks_pos (held : Held) : 0 < held.blocks := (sizeToBlocks_bounds held.size).1

theorem Held.covers_first (held : Held) : held.Covers held.first :=
  ⟨Nat.le_refl _, Nat.lt_add_of_pos_right held.blocks_pos⟩

/-! ## One pool -/

structure PoolHolds (pool : Pool) (live : List Held) : Prop where
  short : pool.bitmap.length < 4194304
  next : pool.nextNonFull < pool.bitmap.length
  full : ∀ block < 32 * pool.nextNonFull, bitAt pool.bitmap block = true
  bits : ∀ block, bitAt pool.bitmap block = true ↔ ∃ held ∈ live, held.Covers block
  apart : live.Pairwise Held.BlocksApart
  inside : ∀ held ∈ live, held.first + held.blocks ≤ 32 * pool.bitmap.length
  counted : pool.freeBlocks + (live.map Held.blocks).sum = 32 * pool.bitmap.length
  small : ∀ held ∈ live, held.size < 4294967296
  aligned : ∀ held ∈ live, held.ptr.offset = 32 * held.first + 16
  header : ∀ held ∈ live, pool.headers (32 * held.first) = some (sizeToAllocSize held.size)

theorem PoolHolds.busy {pool : Pool} {live : List Held} (holds : PoolHolds pool live) {held : Held}
    (member : held ∈ live) {block : Nat} (covers : held.Covers block) :
    ¬ bitAt pool.bitmap block = false := by
  rw [(holds.bits block).mpr ⟨held, member, covers⟩]
  decide

theorem PoolHolds.perm {pool : Pool} {live other : List Held} (holds : PoolHolds pool live)
    (same : live.Perm other) : PoolHolds pool other where
  short := holds.short
  next := holds.next
  full := holds.full
  bits := by
    intro block
    rw [holds.bits block]
    simp only [same.mem_iff]
  apart := (same.pairwise_iff Held.BlocksApart.symm).mp holds.apart
  inside := fun held member => holds.inside held (same.mem_iff.mpr member)
  counted := by
    rw [← (same.map Held.blocks).sum_eq]
    exact holds.counted
  small := fun held member => holds.small held (same.mem_iff.mpr member)
  aligned := fun held member => holds.aligned held (same.mem_iff.mpr member)
  header := fun held member => holds.header held (same.mem_iff.mpr member)

/-- Allocations that cover so many blocks have so many blocks. -/
theorem card_le_of_covered {live : List Held} {blocks : Finset Nat}
    (covered : ∀ block ∈ blocks, ∃ held ∈ live, held.Covers block) :
    blocks.card ≤ (live.map Held.blocks).sum := by
  induction live generalizing blocks with
  | nil =>
    have empty : blocks = ∅ := by
      apply Finset.eq_empty_of_forall_notMem
      intro block member
      obtain ⟨held, absent, _⟩ := covered block member
      cases absent
    rw [empty, Finset.card_empty]
    exact Nat.zero_le _
  | cons head rest inductionHypothesis =>
    have others : (blocks \ Finset.Ico head.first (head.first + head.blocks)).card ≤
        (rest.map Held.blocks).sum := by
      apply inductionHypothesis
      intro block member
      rw [Finset.mem_sdiff, Finset.mem_Ico] at member
      obtain ⟨held, among, covers⟩ := covered block member.1
      rcases List.mem_cons.mp among with rfl | later
      · exact absurd covers member.2
      · exact ⟨held, later, covers⟩
    have parts : blocks.card ≤
        (blocks \ Finset.Ico head.first (head.first + head.blocks)).card +
          (Finset.Ico head.first (head.first + head.blocks)).card :=
      Finset.card_le_card_sdiff_add_card
    rw [Nat.card_Ico] at parts
    rw [List.map_cons, List.sum_cons]
    omega

/-- A pool with free blocks has a word that is not full. -/
theorem PoolHolds.room {pool : Pool} {live : List Held} (holds : PoolHolds pool live)
    (free : 0 < pool.freeBlocks) : ∃ word ∈ pool.bitmap, word ≠ BitVec.allOnes 32 := by
  by_contra full
  push Not at full
  have covered : ∀ block ∈ Finset.range (32 * pool.bitmap.length),
      ∃ held ∈ live, held.Covers block := by
    intro block member
    rw [Finset.mem_range] at member
    have inside : block / 32 < pool.bitmap.length := by omega
    have parts : block = 32 * (block / 32) + block % 32 := by omega
    rw [← holds.bits block, parts, bitAt_word inside (by omega),
      full _ (List.getElem_mem inside), BitVec.getLsbD_allOnes]
    exact decide_eq_true (by omega)
  have many := card_le_of_covered covered
  rw [Finset.card_range] at many
  have counted := holds.counted
  omega

/-- A new pool is all free. -/
theorem cleared_holds {words : Nat} (some' : 0 < words) (short : words < 4194304) :
    PoolHolds ⟨List.replicate words 0#32, words * bpi, 0, fun _ => none⟩ [] where
  short := by
    rw [List.length_replicate]
    exact short
  next := by
    rw [List.length_replicate]
    exact some'
  full := fun block below => absurd below (Nat.not_lt_zero block)
  bits := by
    intro block
    rw [bitAt_replicate_zero]
    refine ⟨fun taken => (Bool.false_ne_true taken).elim, ?_⟩
    rintro ⟨held, absent, _⟩
    cases absent
  apart := List.Pairwise.nil
  inside := fun held absent => nomatch absent
  counted := by
    rw [List.length_replicate, Nat.mul_comm 32]
    rfl
  small := fun held absent => nomatch absent
  aligned := fun held absent => nomatch absent
  header := fun held absent => nomatch absent

section Calls

variable (wild : BitVec 32 → Nat → BitVec 32)

theorem PoolHolds.turned {pool : Pool} {live : List Held} (holds : PoolHolds pool live) {next : Nat}
    (inside : next < pool.bitmap.length)
    (full : ∀ block < 32 * next, bitAt pool.bitmap block = true) :
    PoolHolds { pool with nextNonFull := next } live :=
  { holds with next := inside, full := full }

/-- A free run becomes an allocation. -/
theorem PoolHolds.taken {pool : Pool} {live : List Held} (holds : PoolHolds pool live) {next : Nat}
    (nextInside : next < pool.bitmap.length)
    (full : ∀ block < 32 * next, bitAt pool.bitmap block = true) {held : Held}
    (small : held.size < 4294967296)
    (aligned : held.ptr.offset = 32 * held.first + 16) (enough : held.blocks ≤ pool.freeBlocks)
    (room : held.first + held.blocks ≤ 32 * pool.bitmap.length)
    (clear : ∀ block, held.Covers block → bitAt pool.bitmap block = false)
    {bitmap : List (BitVec 32)} (length : bitmap.length = pool.bitmap.length)
    (bits : ∀ block, bitAt bitmap block =
      if held.first ≤ block ∧ block < held.first + held.blocks then true
      else bitAt pool.bitmap block) :
    PoolHolds
      { bitmap
        nextNonFull := next
        freeBlocks := pool.freeBlocks - held.blocks
        headers :=
          Function.update pool.headers (32 * held.first) (some (sizeToAllocSize held.size)) }
      (held :: live) where
  short := by
    rw [length]
    exact holds.short
  next := by
    rw [length]
    exact nextInside
  full := by
    intro block below
    rw [bits, full block below]
    split <;> rfl
  bits := by
    intro block
    rw [bits, List.exists_mem_cons_iff]
    by_cases covered : held.first ≤ block ∧ block < held.first + held.blocks
    · rw [if_pos covered]
      exact ⟨fun _ => Or.inl covered, fun _ => rfl⟩
    · rw [if_neg covered, holds.bits]
      exact ⟨Or.inr, fun either => either.resolve_left covered⟩
  apart := by
    refine List.pairwise_cons.mpr ⟨?_, holds.apart⟩
    intro other member
    by_contra overlap
    have positive := held.blocks_pos
    have otherPositive := other.blocks_pos
    rw [Held.BlocksApart] at overlap
    -- the later of the two first blocks lies in both runs
    have shared : held.Covers (max held.first other.first) := by
      rw [Held.Covers]
      omega
    have taken : other.Covers (max held.first other.first) := by
      rw [Held.Covers]
      omega
    exact absurd (clear _ shared) (holds.busy member taken)
  inside := by
    rw [length]
    exact List.forall_mem_cons.mpr ⟨room, holds.inside⟩
  counted := by
    have counted := holds.counted
    rw [List.map_cons, List.sum_cons, length]
    dsimp only
    omega
  small := List.forall_mem_cons.mpr ⟨small, holds.small⟩
  aligned := List.forall_mem_cons.mpr ⟨aligned, holds.aligned⟩
  header := by
    refine List.forall_mem_cons.mpr ⟨Function.update_self _ _ _, ?_⟩
    intro other member
    have different : 32 * other.first ≠ 32 * held.first := by
      intro same
      have start : other.first = held.first := by omega
      exact absurd (clear _ held.covers_first) (start ▸ holds.busy member other.covers_first)
    exact (Function.update_of_ne different _ _).trans (holds.header other member)

theorem smallocPool_holds {pool : Pool} {live : List Held} (holds : PoolHolds pool live)
    {size : Nat} (small : size < 4294967296) (number : Nat) :
    (∃ next, smallocPool wild pool size = some (none, next) ∧ PoolHolds next live) ∨
      ∃ offset next, smallocPool wild pool size = some (some offset, next) ∧
        PoolHolds next (⟨⟨number, offset⟩, size⟩ :: live) := by
  obtain ⟨positive, _, bounded⟩ := sizeToBlocks_bounds size
  by_cases few : pool.freeBlocks < sizeToBlocks (sizeToAllocSize size)
  · refine Or.inl ⟨pool, ?_, holds⟩
    simp only [smallocPool, smallocBlocks, if_pos few]
    rfl
  · have present := holds.next
    obtain ⟨best, bestInside, search, full⟩ := findBestIndex_first (holds.room (by omega))
      (pool.bitmap.length - pool.nextNonFull - 1) pool.nextNonFull (by omega) holds.full
    have short : pool.bitmap.length < 134217728 := by
      have := holds.short
      omega
    cases found : findRun wild pool.bitmap (sizeToBlocks (sizeToAllocSize size)) best 0 with
    | none =>
      refine Or.inl ⟨{ pool with nextNonFull := best }, ?_, holds.turned bestInside full⟩
      simp only [smallocPool, smallocBlocks, if_neg few,
        if_neg (show ¬ pool.freeBlocks = 0 by omega), search, Option.bind_eq_bind,
        Option.bind_some, found]
    | some place =>
      obtain ⟨i, idx⟩ := place
      obtain ⟨within, free⟩ := findRun_sound wild short positive (by omega) best 0 (by omega) found
      obtain ⟨room, clear⟩ := blocksFree_sound wild within (by omega) positive free
      obtain ⟨bitmap, written, length, bits⟩ :=
        blocksIter_writes wild maskSet_writes within (by omega) room clear
      have offset : i * bpl + idx * bpb = 32 * (32 * i + idx) := by
        simp only [bpl, bpb, bpi]
        omega
      have first : Held.first ⟨⟨number, 32 * (32 * i + idx) + 16⟩, size⟩ = 32 * i + idx := by
        simp only [Held.first, bpb, hdrSize]
        omega
      refine Or.inr ⟨32 * (32 * i + idx) + 16, _, ?_, holds.taken bestInside full small
        (by rw [first])
        (by simpa only [Held.blocks] using Nat.le_of_not_lt few) (by rw [first]; exact room) ?_
        length (by rw [first]; exact bits)⟩
      · simp only [smallocPool, smallocBlocks, if_neg few,
          if_neg (show ¬ pool.freeBlocks = 0 by omega), search, Option.bind_eq_bind,
          Option.bind_some, found, setBlocks, written, Option.map_some, offset, first,
          show hdrSize = 16 from rfl, Held.blocks]
      · intro block covered
        rw [Held.Covers, first] at covered
        exact clear block covered.1 covered.2

/-- A pool that nobody uses has room for all that fits its size. -/
theorem smallocPool_unused {pool : Pool} (holds : PoolHolds pool []) {size : Nat}
    (small : size < 4294967296)
    (fits : sizeToBlocks (sizeToAllocSize size) ≤ 32 * pool.bitmap.length) :
    ∃ offset next, smallocPool wild pool size = some (some offset, next) := by
  obtain ⟨positive, _, bounded⟩ := sizeToBlocks_bounds size
  have clear : ∀ block, bitAt pool.bitmap block = false := by
    intro block
    rw [Bool.eq_false_iff]
    intro taken
    obtain ⟨held, absent, _⟩ := (holds.bits block).mp taken
    cases absent
  have next : pool.nextNonFull = 0 := by
    by_contra later
    have taken := holds.full 0 (by omega)
    rw [clear 0] at taken
    cases taken
  have inside := holds.next
  have counted : pool.freeBlocks = 32 * pool.bitmap.length := holds.counted
  have word : pool.bitmap[0] = 0#32 := by
    apply BitVec.eq_of_getLsbD_eq
    intro bit below
    rw [← bitAt_word (by omega) below, clear, BitVec.getLsbD_zero]
  have room : ¬ pool.bitmap[0] = BitVec.allOnes 32 := by
    rw [word]
    decide
  have best : findBestIndex pool.bitmap 0 = some 0 := by
    rw [findBestIndex, dif_pos (by omega), if_neg room]
  have zero : findNextZero pool.bitmap[0] 0 = 0 := by
    rw [word]
    decide
  have free : blocksFree wild pool.bitmap 0 0 (sizeToBlocks (sizeToAllocSize size)) = true :=
    blocksFree_complete wild (by omega) (by omega) (by omega) fun block _ _ => clear block
  have found : findRun wild pool.bitmap (sizeToBlocks (sizeToAllocSize size)) 0 0 =
      some (0, 0) := by
    rw [findRun, dif_pos (by omega), if_neg room, zero, dif_pos free]
  rcases smallocPool_holds wild holds small 0 with ⟨after, answer, _⟩ | ⟨offset, after, answer, _⟩
  · simp only [smallocPool, smallocBlocks, if_neg (show ¬ pool.freeBlocks <
      sizeToBlocks (sizeToAllocSize size) by omega), if_neg (show ¬ pool.freeBlocks = 0 by omega),
      next, best, Option.bind_eq_bind, Option.bind_some, found] at answer
    cases written : setBlocks wild pool.bitmap 0 0 (sizeToBlocks (sizeToAllocSize size)) with
    | none =>
      rw [written] at answer
      cases answer
    | some bitmap =>
      rw [written] at answer
      cases answer
  · exact ⟨offset, after, answer⟩

/-- The blocks of an allocation are given back. -/
theorem PoolHolds.released {pool : Pool} {held : Held} {live : List Held}
    (holds : PoolHolds pool (held :: live)) {next : Nat} (nextInside : next ≤ pool.nextNonFull)
    (before : 32 * next ≤ held.first)
    {bitmap : List (BitVec 32)} (length : bitmap.length = pool.bitmap.length)
    (bits : ∀ block, bitAt bitmap block =
      if held.first ≤ block ∧ block < held.first + held.blocks then false
      else bitAt pool.bitmap block) :
    PoolHolds
      { bitmap
        nextNonFull := next
        freeBlocks := pool.freeBlocks + held.blocks
        headers := pool.headers }
      live where
  short := by
    rw [length]
    exact holds.short
  next := by
    rw [length]
    exact nextInside.trans_lt holds.next
  full := by
    intro block below
    dsimp only at below
    rw [bits, if_neg (by omega)]
    exact holds.full block (by omega)
  bits := by
    intro block
    rw [bits]
    by_cases covered : held.first ≤ block ∧ block < held.first + held.blocks
    · rw [if_pos covered]
      refine ⟨fun taken => (Bool.false_ne_true taken).elim, ?_⟩
      rintro ⟨other, member, covers⟩
      have apart := (List.pairwise_cons.mp holds.apart).1 other member
      rw [Held.BlocksApart] at apart
      rw [Held.Covers] at covers
      omega
    · rw [if_neg covered, holds.bits, List.exists_mem_cons_iff]
      exact ⟨fun either => either.resolve_left covered, Or.inr⟩
  apart := (List.pairwise_cons.mp holds.apart).2
  inside := by
    rw [length]
    exact (List.forall_mem_cons.mp holds.inside).2
  counted := by
    have counted := holds.counted
    rw [List.map_cons, List.sum_cons] at counted
    rw [length]
    dsimp only
    omega
  small := (List.forall_mem_cons.mp holds.small).2
  aligned := (List.forall_mem_cons.mp holds.aligned).2
  header := (List.forall_mem_cons.mp holds.header).2

theorem PoolHolds.valid {pool : Pool} {live : List Held} (holds : PoolHolds pool live)
    {held : Held} (member : held ∈ live) {offset : Nat} (within : offset ≤ 32 * held.first + 16) :
    ptrValid pool offset = true := by
  have inside := holds.inside held member
  have short := holds.short
  have positive := held.blocks_pos
  rw [ptrValid, decide_eq_true_eq]
  simp only [bpl, bpb, bpi]
  omega

theorem sfreePool_holds {pool : Pool} {held : Held} {live : List Held}
    (holds : PoolHolds pool (held :: live)) :
    ∃ next, sfreePool wild pool held.ptr.offset = some next ∧ PoolHolds next live := by
  have member : held ∈ held :: live := List.mem_cons_self
  have offset : held.ptr.offset - hdrSize = 32 * held.first := by
    rw [holds.aligned held member]
    rfl
  have word : 32 * held.first / bpl = held.first / 32 := by
    simp only [bpl, bpb, bpi]
    omega
  have bit : 32 * held.first % bpl / bpb = held.first % 32 := by
    simp only [bpl, bpb, bpi]
    omega
  have first : 32 * (held.first / 32) + held.first % 32 = held.first := by omega
  have inside := holds.inside held member
  have positive := held.blocks_pos
  have short := holds.short
  have present : held.first / 32 < pool.bitmap.length := by omega
  have taken : ∀ block, 32 * (held.first / 32) + held.first % 32 ≤ block →
      block < 32 * (held.first / 32) + held.first % 32 + held.blocks →
        bitAt pool.bitmap block = !false := by
    intro block after before
    rw [first] at after before
    exact (holds.bits block).mpr ⟨held, member, after, before⟩
  obtain ⟨bitmap, written, length, bits⟩ :=
    blocksIter_writes wild maskClear_writes (by omega) (by omega) (by omega) taken
  rw [first] at bits
  have next : (if held.first / 32 < pool.nextNonFull then held.first / 32 else pool.nextNonFull) ≤
      min pool.nextNonFull (held.first / 32) := by
    split <;> omega
  refine ⟨_, ?_, holds.released (next.trans (Nat.min_le_left _ _)) (by omega) length bits⟩
  rw [Held.blocks] at written
  simp only [sfreePool, offset, holds.valid member (Nat.le_add_right _ _), Bool.not_true,
    if_neg Bool.false_ne_true, holds.header held member, Option.bind_eq_bind, Option.bind_some,
    word, bit, clearBlocks, written, Option.map_some, Held.blocks]

end Calls

end RaptorMark.Fio.Smalloc
