import RaptorMark.Fio.SmallocPools

/-!
# Runs of the shared memory

Every call of the allocator keeps what the held allocations say of each pool,
for any order of calls on any number of pools.
-/

set_option autoImplicit false

namespace RaptorMark.Fio.Smalloc

/-! ## All pools -/

def inPool (live : List Held) (number : Nat) : List Held :=
  live.filter fun held => held.ptr.pool = number

structure HeapHolds (heap : Heap) (live : List Held) : Prop where
  last : heap.lastPool ≤ heap.mp.length
  placed : ∀ held ∈ live, held.ptr.pool < heap.mp.length
  pools : ∀ number pool, heap.mp[number]? = some pool → PoolHolds pool (inPool live number)

theorem inPool_cons_self (held : Held) (live : List Held) :
    inPool (held :: live) held.ptr.pool = held :: inPool live held.ptr.pool :=
  List.filter_cons_of_pos (decide_eq_true rfl)

theorem inPool_cons_other {held : Held} {live : List Held} {number : Nat}
    (other : number ≠ held.ptr.pool) : inPool (held :: live) number = inPool live number := by
  refine List.filter_cons_of_neg ?_
  rw [decide_eq_true_eq]
  exact fun same => other same.symm

/-- One pool changes, and with it the allocations of that pool. -/
theorem HeapHolds.replaced {heap : Heap} {live : List Held} (holds : HeapHolds heap live)
    {number : Nat} (inside : number < heap.mp.length) {pool : Pool} {after : List Held}
    (changed : PoolHolds pool (inPool after number))
    (others : ∀ other, other ≠ number → inPool after other = inPool live other)
    (placed : ∀ held ∈ after, held.ptr.pool < heap.mp.length) {last : Nat}
    (lastInside : last ≤ heap.mp.length) :
    HeapHolds ⟨heap.mp.set number pool, last⟩ after where
  last := by
    rw [List.length_set]
    exact lastInside
  placed := by
    intro held member
    rw [List.length_set]
    exact placed held member
  pools := by
    intro other stored found
    by_cases same : other = number
    · subst same
      rw [List.getElem?_set_self inside, Option.some.injEq] at found
      exact found ▸ changed
    · rw [List.getElem?_set_ne (Ne.symm same)] at found
      rw [others other same]
      exact holds.pools other stored found

theorem HeapHolds.elsewhere {heap : Heap} {live : List Held} (holds : HeapHolds heap live)
    {number : Nat} (beyond : heap.mp.length ≤ number) : inPool live number = [] := by
  rw [inPool, List.filter_eq_nil_iff]
  intro held member
  rw [decide_eq_true_eq]
  have placed := holds.placed held member
  omega

theorem HeapHolds.perm {heap : Heap} {live after : List Held} (holds : HeapHolds heap live)
    (same : live.Perm after) : HeapHolds heap after where
  last := holds.last
  placed := fun held member => holds.placed held (same.mem_iff.mpr member)
  pools := fun number pool found => (holds.pools number pool found).perm (same.filter _)

theorem HeapHolds.turned {heap : Heap} {live : List Held} (holds : HeapHolds heap live)
    (last : Nat) (inside : last ≤ heap.mp.length) : HeapHolds { heap with lastPool := last } live :=
  { holds with last := inside }

section Calls

variable (wild : BitVec 32 → Nat → BitVec 32)

theorem sfree_holds {heap : Heap} {held : Held} {live : List Held}
    (holds : HeapHolds heap (held :: live)) :
    ∃ next, sfree wild heap held.ptr = some next ∧ HeapHolds next live ∧
      next.mp.length = heap.mp.length := by
  have inside := holds.placed held List.mem_cons_self
  have stored := List.getElem?_eq_getElem inside
  have poolHolds := holds.pools _ _ stored
  rw [inPool_cons_self] at poolHolds
  obtain ⟨pool, freed, after⟩ := sfreePool_holds wild poolHolds
  have valid : ptrValid heap.mp[held.ptr.pool] held.ptr.offset = true :=
    poolHolds.valid List.mem_cons_self (poolHolds.aligned held List.mem_cons_self).le
  refine ⟨_, ?_, holds.replaced inside after ?_ ?_ holds.last, List.length_set⟩
  · simp only [sfree, stored, Option.bind_eq_bind, Option.bind_some, valid, Bool.not_true,
      if_neg Bool.false_ne_true, freed]
  · intro other different
    exact (inPool_cons_other different).symm
  · exact fun other member => holds.placed other (List.mem_cons_of_mem _ member)

/-- What a try of one pool does to the heap. -/
theorem tryPool_holds {heap : Heap} {live : List Held} (holds : HeapHolds heap live) {size : Nat}
    (small : size < 4294967296) {number : Nat} (inside : number < heap.mp.length) :
    (∃ pool, smallocPool wild heap.mp[number] size = some (none, pool) ∧
      HeapHolds { heap with mp := heap.mp.set number pool } live) ∨
    ∃ offset pool, smallocPool wild heap.mp[number] size = some (some offset, pool) ∧
      HeapHolds ⟨heap.mp.set number pool, number⟩ (⟨⟨number, offset⟩, size⟩ :: live) := by
  have poolHolds := holds.pools number _ (List.getElem?_eq_getElem inside)
  rcases smallocPool_holds wild poolHolds small number with
    ⟨pool, answer, after⟩ | ⟨offset, pool, answer, after⟩
  · exact Or.inl ⟨pool, answer,
      holds.replaced inside after (fun _ _ => rfl) holds.placed holds.last⟩
  · refine Or.inr ⟨offset, pool, answer, holds.replaced inside ?_ ?_ ?_ inside.le⟩
    · have own := inPool_cons_self ⟨⟨number, offset⟩, size⟩ live
      rw [own]
      exact after
    · exact fun other different => inPool_cons_other different
    · exact List.forall_mem_cons.mpr ⟨inside, holds.placed⟩

/-- What a call leaves behind: nothing new is held, or one allocation is. -/
def Answered (live : List Held) (size : Nat) (pools : Nat) (answer : Option Ptr × Heap) : Prop :=
  answer.2.mp.length = pools ∧
    match answer.1 with
    | none => HeapHolds answer.2 live
    | some ptr => HeapHolds answer.2 (⟨ptr, size⟩ :: live)

theorem tryPools_holds {size : Nat} (small : size < 4294967296) {live : List Held}
    (numbers : List Nat) {heap : Heap} (holds : HeapHolds heap live)
    (inside : ∀ number ∈ numbers, number < heap.mp.length) :
    ∃ answer, tryPools wild size numbers heap = some answer ∧
      Answered live size heap.mp.length answer := by
  induction numbers generalizing heap with
  | nil => exact ⟨(none, heap), rfl, rfl, holds⟩
  | cons number rest inductionHypothesis =>
    have here := inside number List.mem_cons_self
    have stored := List.getElem?_eq_getElem here
    rcases tryPool_holds wild holds small here with
      ⟨pool, tried, after⟩ | ⟨offset, pool, tried, after⟩
    · obtain ⟨answer, result, answered⟩ := inductionHypothesis after (by
        intro other member
        rw [List.length_set]
        exact inside other (List.mem_cons_of_mem _ member))
      rw [List.length_set] at answered
      refine ⟨answer, ?_, answered⟩
      simp only [tryPools, stored, Option.bind_eq_bind, Option.bind_some, tried, result]
    · refine ⟨(some ⟨number, offset⟩, ⟨heap.mp.set number pool, number⟩), ?_, List.length_set,
        after⟩
      simp only [tryPools, stored, Option.bind_eq_bind, Option.bind_some, tried]

theorem debugPools_holds {size : Nat} (small : size < 4294967296) {live : List Held}
    (numbers : List Nat) {heap : Heap} (holds : HeapHolds heap live)
    (inside : ∀ number ∈ numbers, number < heap.mp.length) :
    ∃ next, debugPools wild size numbers heap = some next ∧ HeapHolds next live ∧
      next.mp.length = heap.mp.length := by
  induction numbers generalizing heap with
  | nil => exact ⟨heap, rfl, holds, rfl⟩
  | cons number rest inductionHypothesis =>
    have here := inside number List.mem_cons_self
    have stored := List.getElem?_eq_getElem here
    have others : ∀ next : Heap, next.mp.length = heap.mp.length →
        ∀ other ∈ rest, other < next.mp.length := by
      intro next same other member
      rw [same]
      exact inside other (List.mem_cons_of_mem _ member)
    by_cases enough : sizeToBlocks (sizeToAllocSize size) ≤ heap.mp[number].freeBlocks
    · rcases tryPool_holds wild holds small here with
        ⟨pool, tried, after⟩ | ⟨offset, pool, tried, after⟩
      · obtain ⟨next, result, held, same⟩ :=
          inductionHypothesis after (others _ List.length_set)
        rw [List.length_set] at same
        refine ⟨next, ?_, held, same⟩
        simp only [debugPools, stored, Option.bind_eq_bind, Option.bind_some, if_pos enough, tried,
          result]
      · have kept := after.turned heap.lastPool (by
          rw [List.length_set]
          exact holds.last)
        obtain ⟨freed, given, back, sameFreed⟩ := sfree_holds wild kept
        rw [List.length_set] at sameFreed
        obtain ⟨next, result, held, same⟩ :=
          inductionHypothesis (back.turned number (by omega)) (others _ sameFreed)
        refine ⟨next, ?_, held, same.trans sameFreed⟩
        simp only [debugPools, stored, Option.bind_eq_bind, Option.bind_some, if_pos enough, tried]
        dsimp only at given
        simp only [given, Option.bind_some, result]
    · obtain ⟨next, result, held, same⟩ := inductionHypothesis holds (others _ rfl)
      refine ⟨next, ?_, held, same⟩
      simp only [debugPools, stored, Option.bind_eq_bind, Option.bind_some, if_neg enough, result]

theorem trySearch_holds {size : Nat} (small : size < 4294967296) {live : List Held} {heap : Heap}
    (holds : HeapHolds heap live) :
    ∃ answer, trySearch wild heap size = some answer ∧
      Answered live size heap.mp.length answer := by
  obtain ⟨⟨found, next⟩, result, same, answered⟩ := tryPools_holds wild small
    ((List.range heap.mp.length).drop heap.lastPool) holds
    fun number member => List.mem_range.mp (List.mem_of_mem_drop member)
  cases found with
  | some ptr =>
    refine ⟨(some ptr, next), ?_, same, answered⟩
    simp only [trySearch, Option.bind_eq_bind, result, Option.bind_some]
  | none =>
    dsimp only at same answered
    by_cases later : heap.lastPool ≠ 0
    · obtain ⟨answer, second, secondAnswered⟩ := tryPools_holds wild small
        (List.range heap.lastPool) (answered.turned 0 (Nat.zero_le _)) (by
          intro number member
          have below := List.mem_range.mp member
          have last := holds.last
          dsimp only
          omega)
      dsimp only at secondAnswered
      rw [same] at secondAnswered
      refine ⟨answer, ?_, secondAnswered⟩
      simp only [trySearch, Option.bind_eq_bind, result, Option.bind_some, if_pos later, second]
    · refine ⟨(none, next), ?_, same, answered⟩
      simp only [trySearch, Option.bind_eq_bind, result, Option.bind_some, if_neg later]

/-- Some pool has no allocations and is large enough. -/
def Unused (heap : Heap) (live : List Held) (size number : Nat) : Prop :=
  ∃ pool, heap.mp[number]? = some pool ∧ inPool live number = [] ∧
    sizeToBlocks (sizeToAllocSize size) ≤ 32 * pool.bitmap.length

theorem tryPools_unused {size : Nat} (small : size < 4294967296) {live : List Held}
    (numbers : List Nat) {heap : Heap} (holds : HeapHolds heap live)
    (inside : ∀ number ∈ numbers, number < heap.mp.length) {number : Nat}
    (member : number ∈ numbers) (unused : Unused heap live size number) :
    ∃ ptr next, tryPools wild size numbers heap = some (some ptr, next) := by
  induction numbers generalizing heap with
  | nil => cases member
  | cons head rest inductionHypothesis =>
    have here := inside head List.mem_cons_self
    have stored := List.getElem?_eq_getElem here
    rcases tryPool_holds wild holds small here with
      ⟨pool, tried, after⟩ | ⟨offset, pool, tried, after⟩
    · obtain ⟨wanted, wantedStored, empty, fits⟩ := unused
      have different : number ≠ head := by
        rintro rfl
        have poolHolds := holds.pools number wanted wantedStored
        rw [empty] at poolHolds
        obtain ⟨offset, next, answer⟩ := smallocPool_unused wild poolHolds small fits
        rw [stored, Option.some.injEq] at wantedStored
        rw [wantedStored, answer] at tried
        cases tried
      obtain ⟨ptr, next, result⟩ := inductionHypothesis after (by
        intro other later
        rw [List.length_set]
        exact inside other (List.mem_cons_of_mem _ later))
        ((List.mem_cons.mp member).resolve_left different)
        ⟨wanted, by
          rw [List.getElem?_set_ne (Ne.symm different)]
          exact wantedStored, empty, fits⟩
      refine ⟨ptr, next, ?_⟩
      simp only [tryPools, stored, Option.bind_eq_bind, Option.bind_some, tried, result]
    · refine ⟨⟨head, offset⟩, ⟨heap.mp.set head pool, head⟩, ?_⟩
      simp only [tryPools, stored, Option.bind_eq_bind, Option.bind_some, tried]

theorem tryPools_frame {size : Nat} (numbers : List Nat) {heap next : Heap}
    (failed : tryPools wild size numbers heap = some (none, next)) {number : Nat}
    (other : number ∉ numbers) : next.mp[number]? = heap.mp[number]? := by
  induction numbers generalizing heap with
  | nil =>
    rw [tryPools, Option.some.injEq, Prod.mk.injEq] at failed
    rw [failed.2]
  | cons head rest inductionHypothesis =>
    rw [List.mem_cons, not_or] at other
    rw [tryPools, Option.bind_eq_bind, Option.bind_eq_some_iff] at failed
    obtain ⟨pool, _, tried⟩ := failed
    rw [Option.bind_eq_bind, Option.bind_eq_some_iff] at tried
    obtain ⟨⟨found, after⟩, _, rest⟩ := tried
    cases found with
    | some offset => cases rest
    | none =>
      have unchanged := inductionHypothesis rest other.2
      rwa [List.getElem?_set_ne (Ne.symm other.1)] at unchanged

theorem mem_laterPools {pools last number : Nat} :
    number ∈ (List.range pools).drop last ↔ last ≤ number ∧ number < pools := by
  rw [List.range_eq_range', List.drop_range', List.mem_range'_1]
  omega

theorem trySearch_unused {size : Nat} (small : size < 4294967296) {live : List Held} {heap : Heap}
    (holds : HeapHolds heap live) {number : Nat} (unused : Unused heap live size number) :
    ∃ ptr next, trySearch wild heap size = some (some ptr, next) := by
  have inside : ∀ other ∈ (List.range heap.mp.length).drop heap.lastPool,
      other < heap.mp.length := fun other member => (mem_laterPools.mp member).2
  obtain ⟨⟨found, next⟩, result, same, answered⟩ := tryPools_holds wild small _ holds inside
  cases found with
  | some ptr =>
    refine ⟨ptr, next, ?_⟩
    simp only [trySearch, Option.bind_eq_bind, result, Option.bind_some]
  | none =>
    dsimp only at same answered
    have earlier : number < heap.lastPool := by
      by_contra later
      obtain ⟨pool, stored, _⟩ := id unused
      have present := (List.getElem?_eq_some_iff.mp stored).1
      obtain ⟨ptr, after, success⟩ := tryPools_unused wild small _ holds inside
        (mem_laterPools.mpr ⟨by omega, present⟩) unused
      rw [success] at result
      cases result
    have unchanged : next.mp[number]? = heap.mp[number]? :=
      tryPools_frame wild _ result fun member => by
        have := mem_laterPools.mp member
        omega
    have last := holds.last
    obtain ⟨ptr, after, success⟩ := tryPools_unused wild small (List.range heap.lastPool)
      (answered.turned 0 (Nat.zero_le _)) (by
        intro other member
        have below := List.mem_range.mp member
        dsimp only
        omega) (List.mem_range.mpr earlier) (by
          rw [Unused]
          dsimp only
          rw [unchanged]
          exact unused)
    refine ⟨ptr, after, ?_⟩
    simp only [trySearch, Option.bind_eq_bind, result, Option.bind_some,
      if_pos (show heap.lastPool ≠ 0 by omega), success]

theorem smalloc_holds {live : List Held} {heap : Heap} (holds : HeapHolds heap live)
    (size : Nat) :
    ∃ answer, smalloc wild heap size = some answer ∧
      Answered live size heap.mp.length answer := by
  by_cases large : 4294967296 ≤ size
  · exact ⟨(none, heap), if_pos large, rfl, holds⟩
  · obtain ⟨⟨found, next⟩, result, same, answered⟩ :=
      trySearch_holds wild (Nat.lt_of_not_le large) holds
    cases found with
    | some ptr =>
      refine ⟨(some ptr, next), ?_, same, answered⟩
      simp only [smalloc, if_neg large, Option.bind_eq_bind, result, Option.bind_some]
    | none =>
      dsimp only at same answered
      have debugged : ∃ after, smallocDebug wild next size = some after ∧ HeapHolds after live ∧
          after.mp.length = next.mp.length := by
        by_cases empty : size = 0
        · exact ⟨next, if_pos empty, answered, rfl⟩
        · rw [smallocDebug, if_neg empty]
          exact debugPools_holds wild (by omega) _ answered fun number => List.mem_range.mp
      obtain ⟨after, logged, kept, sameAfter⟩ := debugged
      refine ⟨(none, after), ?_, sameAfter.trans same, kept⟩
      simp only [smalloc, if_neg large, Option.bind_eq_bind, result, Option.bind_some, logged]

end Calls

theorem addPool_holds {heap : Heap} {live : List Held} (holds : HeapHolds heap live)
    {allocSize : Nat} (fits : mmapSize allocSize < 4294967296) :
    HeapHolds (addPool heap allocSize) live := by
  by_cases full : heap.mp.length = maxPools
  · rw [addPool, if_pos full]
    exact holds
  · have words : 0 < bitmapBlocks allocSize ∧ bitmapBlocks allocSize < 4194304 := by
      simp only [mmapSize, bpl, bpb, bpi] at fits
      refine ⟨?_, by omega⟩
      rw [bitmapBlocks]
      split
      · decide
      · simp only [bpl, bpb, bpi]
        omega
    rw [addPool, if_neg full]
    refine ⟨?_, ?_, ?_⟩
    · rw [List.length_append]
      exact Nat.le_add_right_of_le holds.last
    · intro held member
      rw [List.length_append]
      exact Nat.lt_add_right _ (holds.placed held member)
    · intro number pool found
      by_cases before : number < heap.mp.length
      · rw [List.getElem?_append_left before] at found
        exact holds.pools number pool found
      · rw [List.getElem?_append_right (by omega)] at found
        obtain ⟨rfl, rfl⟩ : number = heap.mp.length ∧ _ = pool := by
          have index : number - heap.mp.length = 0 := by
            by_contra beyond
            rw [List.getElem?_eq_none (by simp; omega)] at found
            cases found
          rw [index] at found
          exact ⟨by omega, Option.some.inj found⟩
        rw [holds.elsewhere (Nat.le_refl _)]
        exact cleared_holds words.1 words.2

/-! ## Runs -/

inductive Call where
  | addPool (allocSize : Nat)
  | smalloc (size : Nat)
  | scalloc (nmemb size : Nat)
  | sfree (index : Nat)
deriving DecidableEq

/-- The allocator, and what its callers hold. -/
structure Shared where
  heap : Heap
  held : List Held

def Shared.start : Shared := ⟨⟨[], 0⟩, []⟩

def Shared.keep (shared : Shared) (size : Nat) (answer : Option Ptr × Heap) : Shared :=
  match answer.1 with
  | none => ⟨answer.2, shared.held⟩
  | some ptr => ⟨answer.2, ⟨ptr, size⟩ :: shared.held⟩

section Runs

variable (wild : BitVec 32 → Nat → BitVec 32)

/-- One call.  What is given back is one of the pointers that are held. -/
def Shared.call (shared : Shared) : Call → Option Shared
  | .addPool allocSize => some { shared with heap := Smalloc.addPool shared.heap allocSize }
  | .smalloc size => (Smalloc.smalloc wild shared.heap size).map (shared.keep size)
  | .scalloc nmemb size =>
      (Smalloc.scalloc wild shared.heap nmemb size).map
        (shared.keep (nmemb * size % 18446744073709551616))
  | .sfree index =>
      match shared.held[index]? with
      | none => some shared
      | some held =>
          (Smalloc.sfree wild shared.heap held.ptr).map fun heap =>
            ⟨heap, shared.held.eraseIdx index⟩

def Shared.run (shared : Shared) (calls : List Call) : Option Shared :=
  calls.foldlM (Shared.call wild) shared

theorem Shared.keep_holds {shared : Shared} {size pools : Nat} {answer : Option Ptr × Heap}
    (answered : Answered shared.held size pools answer) :
    HeapHolds (shared.keep size answer).heap (shared.keep size answer).held := by
  obtain ⟨found, heap⟩ := answer
  cases found with
  | none => exact answered.2
  | some ptr => exact answered.2

theorem Shared.call_holds {shared : Shared} (holds : HeapHolds shared.heap shared.held)
    (call : Call)
    (fits : ∀ allocSize, call = .addPool allocSize → mmapSize allocSize < 4294967296) :
    ∃ next, shared.call wild call = some next ∧ HeapHolds next.heap next.held := by
  cases call with
  | addPool allocSize => exact ⟨_, rfl, addPool_holds holds (fits allocSize rfl)⟩
  | smalloc size =>
    obtain ⟨answer, result, answered⟩ := smalloc_holds wild holds size
    refine ⟨shared.keep size answer, ?_, shared.keep_holds answered⟩
    rw [Shared.call, result, Option.map_some]
  | scalloc nmemb size =>
    obtain ⟨answer, result, answered⟩ :=
      smalloc_holds wild holds (nmemb * size % 18446744073709551616)
    refine ⟨shared.keep (nmemb * size % 18446744073709551616) answer, ?_,
      shared.keep_holds answered⟩
    rw [Shared.call, Smalloc.scalloc, result, Option.map_some]
  | sfree index =>
    cases found : shared.held[index]? with
    | none =>
      refine ⟨shared, ?_, holds⟩
      simp only [Shared.call, found]
    | some held =>
      obtain ⟨inside, rfl⟩ := List.getElem?_eq_some_iff.mp found
      have turned := holds.perm (List.getElem_cons_eraseIdx_perm inside).symm
      obtain ⟨next, freed, after, _⟩ := sfree_holds wild turned
      refine ⟨⟨next, shared.held.eraseIdx index⟩, ?_, after⟩
      simp only [Shared.call, found, freed, Option.map_some]

theorem Shared.run_holds (calls : List Call)
    (fits : ∀ allocSize, Call.addPool allocSize ∈ calls → mmapSize allocSize < 4294967296)
    {shared : Shared} (holds : HeapHolds shared.heap shared.held) :
    ∃ last, shared.run wild calls = some last ∧ HeapHolds last.heap last.held := by
  induction calls generalizing shared with
  | nil => exact ⟨shared, rfl, holds⟩
  | cons call rest inductionHypothesis =>
    obtain ⟨next, step, after⟩ := shared.call_holds wild holds call (by
      intro allocSize same
      exact fits allocSize (List.mem_cons.mpr (Or.inl same.symm)))
    obtain ⟨last, remaining, final⟩ := inductionHypothesis
      (fun allocSize member => fits allocSize (List.mem_cons_of_mem _ member)) after
    refine ⟨last, ?_, final⟩
    rw [Shared.run, List.foldlM_cons, step]
    exact remaining

/-- Where the red zone behind an allocation ends. -/
def Held.redEnd (held : Held) : Nat :=
  postredPtr (held.ptr.offset - hdrSize) (sizeToAllocSize held.size) + 4

/-- From the header to the end of the red zone behind. -/
def Held.BytesApart (one other : Held) : Prop :=
  one.redEnd ≤ other.ptr.offset - hdrSize ∨ other.redEnd ≤ one.ptr.offset - hdrSize

/-- What its holder may write lies between the header and the red zone, and all
of it in the blocks of the allocation. -/
theorem PoolHolds.bytes {pool : Pool} {live : List Held} (holds : PoolHolds pool live)
    {held : Held} (member : held ∈ live) :
    held.ptr.offset = 32 * held.first + 16 ∧ held.ptr.offset + held.size + 4 ≤ held.redEnd ∧
      held.redEnd ≤ 32 * (held.first + held.blocks) := by
  have aligned := holds.aligned held member
  have redEnd : held.redEnd = 32 * held.first + sizeToAllocSize held.size := by
    rw [Held.redEnd, aligned]
    simp only [postredPtr, sizeToAllocSize, show hdrSize = 16 from rfl]
    omega
  have room : held.size + 20 ≤ sizeToAllocSize held.size := by
    simp only [sizeToAllocSize, show hdrSize = 16 from rfl]
    omega
  have blocks : sizeToAllocSize held.size ≤ 32 * held.blocks := by
    simp only [Held.blocks, sizeToBlocks, show bpb = 32 from rfl]
    omega
  refine ⟨aligned, ?_, ?_⟩
  · rw [redEnd, aligned]
    omega
  · rw [redEnd, Nat.mul_add]
    exact Nat.add_le_add_left blocks _

theorem PoolHolds.bytesApart {pool : Pool} {live : List Held} (holds : PoolHolds pool live) :
    live.Pairwise Held.BytesApart := by
  refine holds.apart.imp_of_mem ?_
  intro one other oneMember otherMember apart
  have oneBytes := holds.bytes oneMember
  have otherBytes := holds.bytes otherMember
  rw [Held.BlocksApart] at apart
  rw [Held.BytesApart, show hdrSize = 16 from rfl]
  omega

theorem pairwise_of_inPool {relation : Held → Held → Prop} {live : List Held}
    (pools : ∀ number, (inPool live number).Pairwise relation) :
    live.Pairwise fun one other => one.ptr.pool = other.ptr.pool → relation one other := by
  induction live with
  | nil => exact List.Pairwise.nil
  | cons head rest inductionHypothesis =>
    have own := pools head.ptr.pool
    rw [inPool_cons_self, List.pairwise_cons] at own
    refine List.pairwise_cons.mpr ⟨?_, inductionHypothesis ?_⟩
    · intro other member same
      exact own.1 other (List.mem_filter.mpr ⟨member, decide_eq_true same.symm⟩)
    · intro number
      by_cases same : number = head.ptr.pool
      · rw [same]
        exact own.2
      · have others := pools number
        rwa [inPool_cons_other same] at others

/-- In every order of calls no assertion of the allocator fails, and no bitmap
is read beyond its end.  The allocations that are held lie inside their pools
and apart from each other, from the header to the end of the red zone behind,
and what is written to one ends before its red zone.  Each pool has counted the
blocks that are left, and while it is not used, every request that fits it
succeeds. -/
theorem smalloc_held_apart (calls : List Call)
    (fits : ∀ allocSize, Call.addPool allocSize ∈ calls → mmapSize allocSize < 4294967296) :
    ∃ shared, Shared.start.run wild calls = some shared ∧
      (shared.held.Pairwise fun one other =>
        one.ptr.pool = other.ptr.pool → one.BytesApart other) ∧
      (∀ held ∈ shared.held, ∃ pool, shared.heap.mp[held.ptr.pool]? = some pool ∧
        hdrSize ≤ held.ptr.offset ∧ held.ptr.offset + held.size + 4 ≤ held.redEnd ∧
          held.redEnd ≤ pool.bitmap.length * bpl) ∧
      ∀ number pool, shared.heap.mp[number]? = some pool →
        pool.freeBlocks +
          ((shared.held.filter fun held => held.ptr.pool = number).map Held.blocks).sum =
            pool.bitmap.length * bpi ∧
        ((∀ held ∈ shared.held, held.ptr.pool ≠ number) → ∀ size < 4294967296,
          sizeToBlocks (sizeToAllocSize size) ≤ pool.bitmap.length * bpi →
            ∃ ptr next, smalloc wild shared.heap size = some (some ptr, next)) := by
  have empty : HeapHolds Shared.start.heap Shared.start.held :=
    ⟨Nat.le_refl 0, fun held absent => (nomatch absent), fun number pool absent => (nomatch absent)⟩
  obtain ⟨shared, result, holds⟩ := Shared.run_holds wild calls fits empty
  refine ⟨shared, result, ?_, ?_, ?_⟩
  · apply pairwise_of_inPool
    intro number
    by_cases inside : number < shared.heap.mp.length
    · exact (holds.pools number _ (List.getElem?_eq_getElem inside)).bytesApart
    · rw [holds.elsewhere (by omega)]
      exact List.Pairwise.nil
  · intro held member
    have stored := List.getElem?_eq_getElem (holds.placed held member)
    have poolHolds := holds.pools _ _ stored
    have own : held ∈ inPool shared.held held.ptr.pool :=
      List.mem_filter.mpr ⟨member, decide_eq_true rfl⟩
    have bytes := poolHolds.bytes own
    have inside := poolHolds.inside held own
    refine ⟨_, stored, ?_, bytes.2.1, ?_⟩
    · rw [show hdrSize = 16 from rfl]
      omega
    · simp only [bpl, bpb, bpi]
      omega
  · intro number pool stored
    have counted := (holds.pools number pool stored).counted
    rw [Nat.mul_comm 32] at counted
    refine ⟨counted, ?_⟩
    intro nobody size small enough
    rw [show bpi = 32 from rfl, Nat.mul_comm] at enough
    have unused : inPool shared.held number = [] := by
      rw [inPool, List.filter_eq_nil_iff]
      intro held member
      rw [decide_eq_true_eq]
      exact nobody held member
    obtain ⟨ptr, next, success⟩ := trySearch_unused wild small holds ⟨pool, stored, unused, enough⟩
    refine ⟨ptr, next, ?_⟩
    simp only [smalloc, if_neg (show ¬ 4294967296 ≤ size by omega), Option.bind_eq_bind, success,
      Option.bind_some]

end Runs

theorem smalloc_held_apart_two_pools :
    ∃ shared, Shared.start.run (fun word _ => word)
        [.addPool 0, .addPool 33554432, .smalloc 100, .scalloc 3 40, .sfree 1, .smalloc 20000000] =
          some shared ∧
      shared.held.Pairwise fun one other =>
        one.ptr.pool = other.ptr.pool → one.BytesApart other := by
  obtain ⟨shared, result, apart, _⟩ := smalloc_held_apart (fun word _ => word)
    [.addPool 0, .addPool 33554432, .smalloc 100, .scalloc 3 40, .sfree 1, .smalloc 20000000] (by
      intro allocSize member
      rcases List.mem_cons.mp member with first | later
      · cases first
        decide
      · rcases List.mem_cons.mp later with second | rest
        · cases second
          decide
        · simp at rest)
  exact ⟨shared, result, apart⟩

end RaptorMark.Fio.Smalloc
