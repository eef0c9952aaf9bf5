import Mathlib.Algebra.BigOperators.Group.List.Basic
import Mathlib.Data.List.Perm.Basic
import Mathlib.Data.List.Nodup
import RaptorMark.Fio.IoUnits

/-!
# Where the I/O units are

At every point of a run each unit of a job is in the free list, in the ring of
requeued units, with the engine, or in the hands of the loop, and in one of
these places only.  So neither queue overflows, although the ring compares its
indices without the mask, and no assertion about the flags of a unit fails.
-/

set_option autoImplicit false

namespace RaptorMark.Fio

open Lib.Ring

/-! ## The free list -/

structure QueueHolds (q : IoUQueue) (iodepth : Nat) (freed : List Nat) : Prop where
  size : q.max = iodepth
  count : q.nr = freed.length
  slots : ∀ i < freed.length, q.ioUs i = freed[i]?

theorem QueueHolds.push {q : IoUQueue} {iodepth : Nat} {freed : List Nat}
    (holds : QueueHolds q iodepth freed) (room : freed.length < iodepth) (ioU : Nat) :
    ∃ after, ioUQpush q ioU = some after ∧ QueueHolds after iodepth (freed ++ [ioU]) := by
  have fits : q.nr < q.max := by
    rw [holds.count, holds.size]
    exact room
  refine ⟨_, if_pos fits, holds.size, ?_, ?_⟩
  · rw [List.length_append, List.length_singleton, ← holds.count]
  · intro i inside
    rw [List.length_append, List.length_singleton] at inside
    change Function.update q.ioUs q.nr (some ioU) i = _
    rw [holds.count]
    by_cases last : i = freed.length
    · rw [last, Function.update_self, List.getElem?_concat_length]
    · rw [Function.update_of_ne last, holds.slots i (by omega),
        List.getElem?_append_left (by omega)]

theorem QueueHolds.pop {q : IoUQueue} {iodepth : Nat} {freed : List Nat} {ioU : Nat}
    (holds : QueueHolds q iodepth (freed ++ [ioU])) :
    (ioUQpop q).1 = some ioU ∧ QueueHolds (ioUQpop q).2 iodepth freed := by
  have count := holds.count
  rw [List.length_append, List.length_singleton] at count
  have last : q.nr - 1 = freed.length := by omega
  rw [ioUQpop, if_pos (by omega), last]
  refine ⟨?_, holds.size, rfl, ?_⟩
  · rw [holds.slots _ (by simp), List.getElem?_concat_length]
  · intro i inside
    change Function.update q.ioUs freed.length none i = _
    rw [Function.update_of_ne (by omega), holds.slots i (by simp; omega),
      List.getElem?_append_left inside]

theorem QueueHolds.empty_iff {q : IoUQueue} {iodepth : Nat} {freed : List Nat}
    (holds : QueueHolds q iodepth freed) : ioUQempty q = true ↔ freed = [] := by
  rw [ioUQempty, beq_iff_eq, holds.count, List.length_eq_zero_iff]

/-! ## The ring of requeued units -/

/-- The ring has more slots than the job has units, and their number is a power
of two. -/
theorem ringSize_spec {nr : Nat} (small : nr < 4294967296) :
    nr < ringSize nr ∧ ∃ exponent, ringSize nr = 2 ^ exponent := by
  rw [ringSize]
  by_cases power : (nr + 1) &&& (nr + 1 - 1) = 0
  · rw [if_neg (by simpa using power)]
    exact ⟨Nat.lt_succ_self nr, _, eq_two_pow_of_and_pred (Nat.succ_ne_zero nr) power⟩
  · rw [if_pos power, Nat.add_sub_cancel]
    have nonzero : nr ≠ 0 := by
      rintro rfl
      exact power rfl
    have far : Nat.log2 nr < 32 := (Nat.log2_lt nonzero).mpr small
    have start : ∀ i, nr.testBit i = true ↔ ∃ up < 1, nr.testBit (i + up) = true := by
      intro i
      constructor
      · exact fun isSet => ⟨0, by decide, isSet⟩
      · rintro ⟨up, near, isSet⟩
        rwa [show up = 0 by omega] at isSet
    have all := eq_two_pow_sub_one_of_spread nonzero far
      (spread_double (spread_double (spread_double (spread_double (spread_double start)))))
    have above := Nat.lt_log2_self (n := nr)
    dsimp only
    rw [all]
    exact ⟨by omega, Nat.log2 nr + 1, by omega⟩

structure RequeuesHold (r : IoURing) (iodepth : Nat) (requeued : List Nat) : Prop where
  wide : iodepth < r.max
  power : ∃ exponent, r.max = 2 ^ exponent
  tail : r.tail < r.max
  head : r.head = (r.tail + requeued.length) % r.max
  slots : contents r.ring r.max r.tail requeued.length = requeued.map some

theorem RequeuesHold.mask {r : IoURing} {iodepth : Nat} {requeued : List Nat}
    (holds : RequeuesHold r iodepth requeued) (number : Nat) :
    number &&& (r.max - 1) = number % r.max := by
  obtain ⟨exponent, power⟩ := holds.power
  rw [power, Nat.and_two_pow_sub_one_eq_mod]

/-- The unmasked comparison of the source would only be wrong for a ring with
one free slot, and there are always two. -/
theorem RequeuesHold.push {r : IoURing} {iodepth : Nat} {requeued : List Nat}
    (holds : RequeuesHold r iodepth requeued) (room : requeued.length < iodepth) (ioU : Nat) :
    ∃ after, ioURpush r ioU = some after ∧ RequeuesHold after iodepth (requeued ++ [ioU]) := by
  have wide := holds.wide
  have tail := holds.tail
  have head := holds.head
  have notFull : r.head + 1 ≠ r.tail := by
    intro full
    by_cases wraps : r.tail + requeued.length < r.max
    · rw [Nat.mod_eq_of_lt wraps] at head
      omega
    · rw [Nat.mod_eq_sub_mod (by omega), Nat.mod_eq_of_lt (by omega)] at head
      omega
  refine ⟨_, if_pos notFull, wide, holds.power, tail, ?_, ?_⟩
  · change (r.head + 1) &&& (r.max - 1) = (r.tail + (requeued ++ [ioU]).length) % r.max
    rw [holds.mask, head, Nat.mod_add_mod, List.length_append, List.length_singleton,
      Nat.add_assoc]
  · change contents (Function.update r.ring r.head (some ioU)) r.max r.tail
      (requeued ++ [ioU]).length = _
    rw [List.length_append, List.length_singleton, head,
      contents_write r.ring (by omega) (some ioU), holds.slots, List.map_append]
    rfl

theorem RequeuesHold.pop {r : IoURing} {iodepth : Nat} {requeued : List Nat} {ioU : Nat}
    (holds : RequeuesHold r iodepth (ioU :: requeued)) (room : requeued.length < iodepth) :
    (ioURpop r).1 = some ioU ∧ RequeuesHold (ioURpop r).2 iodepth requeued := by
  have wide := holds.wide
  have tail := holds.tail
  have head := holds.head
  have slots := holds.slots
  rw [List.length_cons] at head
  have nonempty : r.head ≠ r.tail := by
    intro same
    by_cases wraps : r.tail + (requeued.length + 1) < r.max
    · rw [Nat.mod_eq_of_lt wraps] at head
      omega
    · rw [Nat.mod_eq_sub_mod (by omega), Nat.mod_eq_of_lt (by omega)] at head
      omega
  rw [List.length_cons, Nat.add_comm, contents_add, contents_succ, contents_zero, List.nil_append,
    List.map_cons, List.singleton_append, List.cons.injEq, Nat.add_zero,
    Nat.mod_eq_of_lt tail] at slots
  rw [ioURpop, if_pos nonempty]
  refine ⟨slots.1, wide, holds.power, ?_, ?_, ?_⟩
  · change (r.tail + 1) &&& (r.max - 1) < r.max
    rw [holds.mask]
    exact Nat.mod_lt _ (by omega)
  · change r.head = (((r.tail + 1) &&& (r.max - 1)) + requeued.length) % r.max
    rw [holds.mask, Nat.mod_add_mod, head]
    congr 1
    omega
  · change contents r.ring r.max ((r.tail + 1) &&& (r.max - 1)) requeued.length = _
    rw [holds.mask]
    exact slots.2

theorem RequeuesHold.empty_iff {r : IoURing} {iodepth : Nat} {requeued : List Nat}
    (holds : RequeuesHold r iodepth requeued) (room : requeued.length ≤ iodepth) :
    ioURempty r = true ↔ requeued = [] := by
  have wide := holds.wide
  have tail := holds.tail
  have head := holds.head
  rw [ioURempty, beq_iff_eq, ← List.length_eq_zero_iff]
  by_cases wraps : r.tail + requeued.length < r.max
  · rw [Nat.mod_eq_of_lt wraps] at head
    omega
  · rw [Nat.mod_eq_sub_mod (by omega), Nat.mod_eq_of_lt (by omega)] at head
    omega

/-! ## Units in flight -/

/-- One if this is a unit in flight in this direction. -/
def flying (u : IoU) (ddir : IoDirection) : Nat := if u.flight = true ∧ u.ddir = ddir then 1 else 0

def inFlight (iodepth : Nat) (td : IoThread) (ddir : IoDirection) : Nat :=
  ((List.range iodepth).map fun ioU => flying (td.ioUs ioU) ddir).sum

def inFlightElse (iodepth : Nat) (td : IoThread) (ioU : Nat) (ddir : IoDirection) : Nat :=
  (((List.range iodepth).erase ioU).map fun other => flying (td.ioUs other) ddir).sum

theorem inFlight_split {iodepth ioU : Nat} (inside : ioU < iodepth) (td : IoThread)
    (ddir : IoDirection) :
    inFlight iodepth td ddir =
      flying (td.ioUs ioU) ddir + inFlightElse iodepth td ioU ddir := by
  have split := List.perm_cons_erase (List.mem_range.mpr inside)
  rw [inFlight, (split.map fun ioU => flying (td.ioUs ioU) ddir).sum_eq, List.map_cons,
    List.sum_cons, inFlightElse]

/-- The other units are as they were. -/
def SameElse (ioU : Nat) (td after : IoThread) : Prop :=
  ∀ other, other ≠ ioU → after.ioUs other = td.ioUs other

theorem SameElse.trans {ioU : Nat} {td middle after : IoThread} (first : SameElse ioU td middle)
    (second : SameElse ioU middle after) : SameElse ioU td after :=
  fun other differ => (second other differ).trans (first other differ)

theorem sameElse_setIoU (td : IoThread) (ioU : Nat) (change : IoU → IoU) :
    SameElse ioU td (td.setIoU ioU change) :=
  fun _ differ => Function.update_of_ne differ ..

theorem setIoU_self (td : IoThread) (ioU : Nat) (change : IoU → IoU) :
    (td.setIoU ioU change).ioUs ioU = change (td.ioUs ioU) :=
  Function.update_self ..

theorem SameElse.inFlightElse_eq {iodepth ioU : Nat} {td after : IoThread}
    (same : SameElse ioU td after) (ddir : IoDirection) :
    inFlightElse iodepth after ioU ddir = inFlightElse iodepth td ioU ddir := by
  rw [inFlightElse, inFlightElse]
  congr 1
  apply List.map_congr_left
  intro other member
  have differ := (List.nodup_range.mem_erase_iff.mp member).1
  rw [same other differ]

theorem flying_landed (u : IoU) (landed : u.flight = false) (ddir : IoDirection) :
    flying u ddir = 0 := by
  rw [flying, landed, if_neg]
  rintro ⟨flies, _⟩
  cases flies

/-- The issues that `requeue_io_u` leaves: the unit is taken back where it is in
flight, which is where it was counted. -/
def unissued (td : IoThread) (ioU : Nat) : IoDirection → Nat :=
  if (td.ioUs ioU).flight ∧ ddirRw (td.ioUs ioU).ddir then
    uncounted td.ioIssues (td.ioUs ioU).ddir
  else td.ioIssues

theorem unissued_eq (td : IoThread) (ioU : Nat) {ddir : IoDirection} (rw' : ddirRw ddir = true) :
    unissued td ioU ddir = td.ioIssues ddir - flying (td.ioUs ioU) ddir := by
  by_cases flew : (td.ioUs ioU).flight = true ∧ (td.ioUs ioU).ddir = ddir
  · obtain ⟨flight, rfl⟩ := flew
    rw [unissued, if_pos ⟨flight, rw'⟩, uncounted, Function.update_self, flying,
      if_pos ⟨flight, rfl⟩]
  · rw [flying, if_neg flew, unissued]
    by_cases other : (td.ioUs ioU).flight ∧ ddirRw (td.ioUs ioU).ddir
    · rw [if_pos other, uncounted, Function.update_of_ne]
      · rfl
      · rintro rfl
        exact flew ⟨other.1, rfl⟩
    · rw [if_neg other]
      rfl

theorem requeueIoU_eq (td : IoThread) (ioU : Nat) (counts : (td.ioUs ioU).inCurDepth = true) :
    requeueIoU td ioU = (ioURpush td.ioURequeues ioU).map fun r =>
      { IoThread.setIoU { td with ioIssues := unissued td ioU } ioU
          (fun u => { u with free := true, flight := false }) with
        curDepth := td.curDepth - 1, ioURequeues := r } := by
  by_cases flew : (td.ioUs ioU).flight ∧ ddirRw (td.ioUs ioU).ddir
  · simp only [requeueIoU, unissued, if_pos flew, setIoU_self, counts, if_true]
    cases pushed : ioURpush td.ioURequeues ioU <;> simp [IoThread.setIoU, pushed]
  · simp only [requeueIoU, unissued, if_neg flew, setIoU_self, counts, if_true]
    cases pushed : ioURpush td.ioURequeues ioU <;> simp [IoThread.setIoU, pushed]

/-! ## The invariant -/

structure Conserved (iodepth : Nat) (td : IoThread) (freed requeued held : List Nat) : Prop where
  freelist : QueueHolds td.ioUFreelist iodepth freed
  requeues : RequeuesHold td.ioURequeues iodepth requeued
  everywhere : (freed ++ requeued ++ td.engine ++ held).Perm (List.range iodepth)
  depth : td.curDepth = td.engine.length + held.length
  idle : ∀ ioU ∈ freed ++ requeued, (td.ioUs ioU).free = true ∧ (td.ioUs ioU).flight = false
  taken : ∀ ioU ∈ td.engine, (td.ioUs ioU).free = false ∧ (td.ioUs ioU).flight = true
  counted : ∀ ioU ∈ td.engine ++ held, (td.ioUs ioU).inCurDepth = true
  issued : ∀ ddir, ddirRw ddir = true →
    td.ioBlocks ddir + inFlight iodepth td ddir ≤ td.ioIssues ddir

namespace Conserved

variable {iodepth : Nat} {td : IoThread} {freed requeued held : List Nat} {ioU : Nat}

theorem nodup (conserved : Conserved iodepth td freed requeued held) :
    (freed ++ requeued ++ td.engine ++ held).Nodup :=
  conserved.everywhere.nodup_iff.mpr List.nodup_range

theorem total (conserved : Conserved iodepth td freed requeued held) :
    freed.length + requeued.length + td.engine.length + held.length = iodepth := by
  have length := conserved.everywhere.length_eq
  rw [List.length_range, List.length_append, List.length_append, List.length_append] at length
  exact length

theorem inside (conserved : Conserved iodepth td freed requeued held)
    (member : ioU ∈ freed ++ requeued ++ td.engine ++ held) : ioU < iodepth :=
  List.mem_range.mp (conserved.everywhere.mem_iff.mp member)

/-- A unit in the hands of the loop is nowhere else. -/
theorem held_only {others : List Nat}
    (conserved : Conserved iodepth td freed requeued (ioU :: others)) :
    ioU ∉ freed ++ requeued ∧ ioU ∉ td.engine ∧ ioU ∉ others := by
  have nodup := conserved.nodup
  rw [List.nodup_append] at nodup
  obtain ⟨front, back, apart⟩ := nodup
  have notFront : ioU ∉ freed ++ requeued ++ td.engine := fun member =>
    apart ioU member ioU (List.mem_cons_self ..) rfl
  rw [List.mem_append, not_or] at notFront
  exact ⟨notFront.1, notFront.2, (List.nodup_cons.mp back).1⟩

/-- A step that changes nothing but the record of a unit in the hands of the
loop, and counters. -/
theorem change {others : List Nat} {after : IoThread}
    (conserved : Conserved iodepth td freed requeued (ioU :: others))
    (freelist : after.ioUFreelist = td.ioUFreelist)
    (requeues : after.ioURequeues = td.ioURequeues) (engine : after.engine = td.engine)
    (depth : after.curDepth = td.curDepth) (same : SameElse ioU td after)
    (counted : (after.ioUs ioU).inCurDepth = true)
    (issued : ∀ ddir, ddirRw ddir = true → ∀ elsewhere,
      td.ioBlocks ddir + (flying (td.ioUs ioU) ddir + elsewhere) ≤ td.ioIssues ddir →
      after.ioBlocks ddir + (flying (after.ioUs ioU) ddir + elsewhere) ≤ after.ioIssues ddir) :
    Conserved iodepth after freed requeued (ioU :: others) := by
  obtain ⟨notIdle, notEngine, notOthers⟩ := conserved.held_only
  have inside : ioU < iodepth := conserved.inside (by simp)
  refine ⟨freelist ▸ conserved.freelist, requeues ▸ conserved.requeues,
    engine ▸ conserved.everywhere, by rw [depth, engine]; exact conserved.depth, ?_, ?_, ?_, ?_⟩
  · intro other member
    have differ : other ≠ ioU := fun equal => notIdle (equal ▸ member)
    rw [same other differ]
    exact conserved.idle other member
  · rw [engine]
    intro other member
    have differ : other ≠ ioU := fun equal => notEngine (equal ▸ member)
    rw [same other differ]
    exact conserved.taken other member
  · rw [engine]
    intro other member
    by_cases equal : other = ioU
    · rw [equal]
      exact counted
    · rw [same other equal]
      exact conserved.counted other member
  · intro ddir rw'
    have before := conserved.issued ddir rw'
    rw [inFlight_split inside] at before ⊢
    rw [same.inFlightElse_eq]
    exact issued ddir rw' _ before

variable {others : List Nat}

/-- A free unit that has landed moves from the loop to one of the queues. -/
theorem land {after : IoThread} {freedAfter requeuedAfter : List Nat}
    (conserved : Conserved iodepth td freed requeued (ioU :: others))
    (free : (td.ioUs ioU).free = true) (landed : (td.ioUs ioU).flight = false)
    (freelist : QueueHolds after.ioUFreelist iodepth freedAfter)
    (requeues : RequeuesHold after.ioURequeues iodepth requeuedAfter)
    (gained : (freedAfter ++ requeuedAfter).Perm (ioU :: (freed ++ requeued)))
    (depth : after.curDepth = td.curDepth - 1) (engine : after.engine = td.engine)
    (units : after.ioUs = td.ioUs) (blocks : after.ioBlocks = td.ioBlocks)
    (issues : after.ioIssues = td.ioIssues) :
    Conserved iodepth after freedAfter requeuedAfter others where
  freelist := freelist
  requeues := requeues
  everywhere := by
    refine List.Perm.trans ?_ conserved.everywhere
    rw [engine]
    refine ((gained.append_right td.engine).append_right others).trans ?_
    rw [List.perm_iff_count]
    intro unit
    simp only [List.count_append, List.count_cons]
    omega
  depth := by
    have before := conserved.depth
    rw [List.length_cons] at before
    rw [depth, engine]
    omega
  idle := by
    intro unit member
    rw [units]
    rcases List.mem_cons.mp (gained.mem_iff.mp member) with rfl | idle
    · exact ⟨free, landed⟩
    · exact conserved.idle unit idle
  taken := by
    rw [units, engine]
    exact conserved.taken
  counted := by
    intro unit member
    rw [units]
    rw [engine] at member
    refine conserved.counted unit ?_
    rcases List.mem_append.mp member with inEngine | inOthers
    · exact List.mem_append_left _ inEngine
    · exact List.mem_append_right _ (List.mem_cons_of_mem _ inOthers)
  issued := by
    intro ddir rw'
    rw [blocks, issues, inFlight, units]
    exact conserved.issued ddir rw'

/-- A change of the record of a held unit that has nothing to do with flight. -/
theorem setIoU (conserved : Conserved iodepth td freed requeued (ioU :: others))
    (change : IoU → IoU) (counts : (change (td.ioUs ioU)).inCurDepth = (td.ioUs ioU).inCurDepth)
    (flies : ∀ ddir, ddirRw ddir = true →
      flying (change (td.ioUs ioU)) ddir ≤ flying (td.ioUs ioU) ddir) :
    Conserved iodepth (td.setIoU ioU change) freed requeued (ioU :: others) := by
  refine conserved.change rfl rfl rfl rfl (sameElse_setIoU td ioU change) ?_ ?_
  · rw [setIoU_self, counts]
    exact conserved.counted ioU (List.mem_append_right _ (List.mem_cons_self ..))
  · intro ddir rw' elsewhere before
    rw [setIoU_self]
    have fewer := flies ddir rw'
    change td.ioBlocks ddir + _ ≤ td.ioIssues ddir
    omega

theorem putIoU (conserved : Conserved iodepth td freed requeued (ioU :: others))
    (landed : (td.ioUs ioU).flight = false) :
    ∃ after, Fio.putIoU td ioU = some after ∧
      Conserved iodepth after (freed ++ [ioU]) requeued others ∧ SameElse ioU td after := by
  have total := conserved.total
  rw [List.length_cons] at total
  have counts := conserved.counted ioU (List.mem_append_right _ (List.mem_cons_self ..))
  let mark := fun u : IoU => { u with hasFile := false, free := true }
  have marked := conserved.setIoU mark rfl fun ddir _ => Nat.le_refl _
  obtain ⟨q, pushed, holds⟩ := conserved.freelist.push (by omega) ioU
  refine ⟨{ td.setIoU ioU mark with curDepth := td.curDepth - 1, ioUFreelist := q }, ?_,
    marked.land ?_ ?_ holds conserved.requeues ?_ rfl rfl rfl rfl rfl, ?_⟩
  · simp only [Fio.putIoU, setIoU_self, counts, if_true]
    change (ioUQpush td.ioUFreelist ioU).bind _ = _
    rw [pushed]
    rfl
  · rw [setIoU_self]
  · rw [setIoU_self]
    exact landed
  · rw [List.append_assoc]
    exact List.perm_middle
  · exact fun other differ => sameElse_setIoU td ioU mark other differ

theorem clearIoU (conserved : Conserved iodepth td freed requeued (ioU :: others)) :
    ∃ after, Fio.clearIoU td ioU = some after ∧
      Conserved iodepth after (freed ++ [ioU]) requeued others ∧ SameElse ioU td after := by
  have cleared := conserved.setIoU (fun u => { u with flight := false }) rfl fun ddir _ => by
    simp only [flying, Bool.false_eq_true, false_and, if_false]
    exact Nat.zero_le _
  obtain ⟨after, put, conserved, same⟩ := cleared.putIoU (by rw [setIoU_self])
  exact ⟨after, put, conserved, (sameElse_setIoU td ioU _).trans same⟩

theorem requeueIoU (conserved : Conserved iodepth td freed requeued (ioU :: others)) :
    ∃ after, Fio.requeueIoU td ioU = some after ∧
      Conserved iodepth after freed (requeued ++ [ioU]) others ∧ SameElse ioU td after := by
  have total := conserved.total
  rw [List.length_cons] at total
  have counts := conserved.counted ioU (List.mem_append_right _ (List.mem_cons_self ..))
  let mark := fun u : IoU => { u with free := true, flight := false }
  have marked : Conserved iodepth
      (IoThread.setIoU { td with ioIssues := unissued td ioU } ioU mark) freed requeued
        (ioU :: others) := by
    refine conserved.change rfl rfl rfl rfl (sameElse_setIoU _ ioU mark) ?_ ?_
    · rw [setIoU_self]
      exact counts
    · intro ddir rw' elsewhere before
      rw [setIoU_self]
      change td.ioBlocks ddir + (flying (mark (td.ioUs ioU)) ddir + elsewhere) ≤
        unissued td ioU ddir
      rw [unissued_eq td ioU rw', flying_landed (mark (td.ioUs ioU)) rfl]
      omega
  obtain ⟨r, pushed, holds⟩ := conserved.requeues.push (by omega) ioU
  refine ⟨{ IoThread.setIoU { td with ioIssues := unissued td ioU } ioU mark with
    curDepth := td.curDepth - 1, ioURequeues := r }, ?_,
    marked.land ?_ ?_ conserved.freelist holds ?_ rfl rfl rfl rfl rfl, ?_⟩
  · rw [requeueIoU_eq td ioU counts, pushed]
    rfl
  · rw [setIoU_self]
  · rw [setIoU_self]
  · rw [← List.append_assoc]
    exact List.perm_append_singleton ..
  · exact fun other differ =>
      sameElse_setIoU { td with ioIssues := unissued td ioU } ioU mark other differ

/-- A unit that was in flight lands in the free list; a block is counted for it
or not. -/
theorem finish (conserved : Conserved iodepth td freed requeued (ioU :: others)) (after : IoThread)
    (freelist : after.ioUFreelist = td.ioUFreelist)
    (requeues : after.ioURequeues = td.ioURequeues) (engine : after.engine = td.engine)
    (depth : after.curDepth = td.curDepth) (same : SameElse ioU td after)
    (counts : (after.ioUs ioU).inCurDepth = (td.ioUs ioU).inCurDepth)
    (landed : (after.ioUs ioU).flight = false) (issues : after.ioIssues = td.ioIssues)
    (blocks : ∀ ddir, after.ioBlocks ddir ≤ td.ioBlocks ddir + flying (td.ioUs ioU) ddir) :
    ∃ done, Fio.putIoU after ioU = some done ∧
      Conserved iodepth done (freed ++ [ioU]) requeued others ∧ SameElse ioU td done := by
  have changed : Conserved iodepth after freed requeued (ioU :: others) := by
    refine conserved.change freelist requeues engine depth same ?_ ?_
    · rw [counts]
      exact conserved.counted ioU (List.mem_append_right _ (List.mem_cons_self ..))
    · intro ddir _ elsewhere before
      have few := blocks ddir
      rw [flying_landed _ landed, issues]
      omega
  obtain ⟨done, put, conserved, rest⟩ := changed.putIoU landed
  exact ⟨done, put, conserved, same.trans rest⟩

/-- An idle unit moves from its queue to the loop. -/
theorem take {after : IoThread} {freedAfter requeuedAfter : List Nat}
    (conserved : Conserved iodepth td freed requeued held)
    (freelist : QueueHolds after.ioUFreelist iodepth freedAfter)
    (requeues : RequeuesHold after.ioURequeues iodepth requeuedAfter)
    (lost : (freed ++ requeued).Perm (ioU :: (freedAfter ++ requeuedAfter)))
    (depth : after.curDepth = td.curDepth + 1) (engine : after.engine = td.engine)
    (same : SameElse ioU td after) (counts : (after.ioUs ioU).inCurDepth = true)
    (landed : (after.ioUs ioU).flight = false) (blocks : after.ioBlocks = td.ioBlocks)
    (issues : after.ioIssues = td.ioIssues) :
    Conserved iodepth after freedAfter requeuedAfter (ioU :: held) := by
  have wasIdle : ioU ∈ freed ++ requeued := lost.mem_iff.mpr (List.mem_cons_self ..)
  have nodup := conserved.nodup
  rw [List.append_assoc, List.nodup_append] at nodup
  obtain ⟨idleNodup, _, apart⟩ := nodup
  have notLeft : ioU ∉ freedAfter ++ requeuedAfter :=
    (List.nodup_cons.mp (lost.nodup_iff.mp idleNodup)).1
  have notElsewhere : ∀ other ∈ td.engine ++ held, other ≠ ioU := fun other member equal =>
    apart ioU wasIdle other member equal.symm
  refine ⟨freelist, requeues, ?_, ?_, ?_, ?_, ?_, ?_⟩
  · refine List.Perm.trans ?_ conserved.everywhere
    rw [engine]
    refine List.Perm.trans ?_ ((lost.symm.append_right td.engine).append_right held)
    rw [List.perm_iff_count]
    intro unit
    simp only [List.count_append, List.count_cons]
    omega
  · have before := conserved.depth
    rw [depth, engine, List.length_cons]
    omega
  · intro other member
    rw [same other fun equal => notLeft (equal ▸ member)]
    exact conserved.idle other (lost.mem_iff.mpr (List.mem_cons_of_mem _ member))
  · rw [engine]
    intro other member
    rw [same other (notElsewhere other (List.mem_append_left _ member))]
    exact conserved.taken other member
  · rw [engine]
    intro other member
    by_cases equal : other = ioU
    · rw [equal]
      exact counts
    · rw [same other equal]
      refine conserved.counted other ?_
      rcases List.mem_append.mp member with inEngine | inHeld
      · exact List.mem_append_left _ inEngine
      · exact List.mem_append_right _ ((List.mem_cons.mp inHeld).resolve_left equal)
  · intro ddir rw'
    have inside : ioU < iodepth := conserved.inside (by
      rw [List.append_assoc]
      exact List.mem_append_left _ wasIdle)
    have before := conserved.issued ddir rw'
    rw [inFlight_split inside, flying_landed _ (conserved.idle ioU wasIdle).2] at before
    rw [inFlight_split inside, flying_landed _ landed, same.inFlightElse_eq, blocks, issues]
    exact before

/-- A unit in flight moves from the loop to the engine. -/
theorem hand (conserved : Conserved iodepth td freed requeued (ioU :: others))
    (owned : (td.ioUs ioU).free = false) (flies : (td.ioUs ioU).flight = true) :
    Conserved iodepth { td with engine := td.engine ++ [ioU] } freed requeued others where
  freelist := conserved.freelist
  requeues := conserved.requeues
  everywhere := by
    refine List.Perm.trans ?_ conserved.everywhere
    rw [List.perm_iff_count]
    intro unit
    simp only [List.count_append, List.count_cons, List.count_nil]
    omega
  depth := by
    have before := conserved.depth
    rw [List.length_cons] at before
    change td.curDepth = (td.engine ++ [ioU]).length + others.length
    rw [List.length_append, List.length_singleton]
    omega
  idle := conserved.idle
  taken := by
    intro unit member
    rcases List.mem_append.mp member with inEngine | isUnit
    · exact conserved.taken unit inEngine
    · rw [List.mem_singleton.mp isUnit]
      exact ⟨owned, flies⟩
  counted := by
    intro unit member
    refine conserved.counted unit ?_
    simp only [List.mem_append, List.mem_cons, List.not_mem_nil, or_false] at member ⊢
    tauto
  issued := conserved.issued

/-- Units that the engine has finished move to the loop. -/
theorem collect {reaped left : List Nat} (conserved : Conserved iodepth td freed requeued [])
    (split : td.engine.Perm (reaped ++ left)) :
    Conserved iodepth { td with engine := left } freed requeued reaped where
  freelist := conserved.freelist
  requeues := conserved.requeues
  everywhere := by
    refine List.Perm.trans ?_ conserved.everywhere
    have counts := List.perm_iff_count.mp split
    rw [List.perm_iff_count]
    intro unit
    have here := counts unit
    simp only [List.count_append, List.count_nil] at here ⊢
    omega
  depth := by
    have before := conserved.depth
    have length := split.length_eq
    rw [List.length_append] at length
    change td.curDepth = left.length + reaped.length
    rw [before, List.length_nil]
    omega
  idle := conserved.idle
  taken := fun unit member =>
    conserved.taken unit (split.mem_iff.mpr (List.mem_append_right _ member))
  counted := by
    intro unit member
    refine conserved.counted unit (List.mem_append_left _ (split.mem_iff.mpr ?_))
    rcases List.mem_append.mp member with inLeft | inReaped
    · exact List.mem_append_right _ inLeft
    · exact List.mem_append_left _ inReaped
  issued := conserved.issued

end Conserved

end RaptorMark.Fio
