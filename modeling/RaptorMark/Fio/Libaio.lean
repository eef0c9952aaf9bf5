import RaptorMark.Lib.Ring

/-!
# The libaio engine's submission ring

`engines/libaio.c`, the engine of the default settings: an I/O that is queued is
put into a ring, a commit hands the ring to the kernel in pieces that do not
wrap, as far as the kernel accepts them, and reaping events commits again when
the kernel has nothing to report.

The kernel's answers to `io_submit` and `io_getevents` are data of the events.
A call whose answers have run out has not returned: its result is `none`, and
the state is the one it has reached.
-/

set_option autoImplicit false

namespace RaptorMark.Fio

open Lib.Ring

/-- An I/O unit is named by a number; `iocbs` holds the control block of the
unit that `io_us` holds in the same slot. -/
structure LibaioData where
  isPow2 : Bool
  entries : Nat
  queued : Nat
  head : Nat
  tail : Nat
  ioUs : Nat → Option Nat

def isPowerOf2 (val : Nat) : Bool := decide (val ≠ 0 ∧ val &&& (val - 1) = 0)

def fioLibaioInit (iodepth : Nat) : LibaioData where
  isPow2 := isPowerOf2 iodepth
  entries := iodepth
  queued := 0
  head := 0
  tail := 0
  ioUs := fun _ => none

def ringInc (ld : LibaioData) (val add : Nat) : Nat :=
  if ld.isPow2 then (val + add) &&& (ld.entries - 1) else (val + add) % ld.entries

inductive IoDirection where
  | read
  | write
  | sync
  | trim
deriving DecidableEq

inductive QStatus where
  | completed
  | queued
  | busy
deriving DecidableEq

def fioLibaioQueue (iodepth : Nat) (ld : LibaioData) (ioU : Nat) (ddir : IoDirection) :
    QStatus × LibaioData :=
  if ld.queued = iodepth then (.busy, ld)
  -- neither a sync nor a trim goes through the ring, and both wait for it to drain
  else if ddir = .sync ∨ ddir = .trim then
    if ld.queued ≠ 0 then (.busy, ld) else (.completed, ld)
  else
    (.queued, { ld with
      ioUs := Function.update ld.ioUs ld.head (some ioU)
      head := ringInc ld ld.head 1
      queued := ld.queued + 1 })

def eintr : Nat := 4

def eagain : Nat := 11

def enomem : Nat := 12

/-- What `io_submit` returns: how many of the control blocks were taken, which
is never more than were offered, or an error number. -/
inductive SubmitAnswer where
  | accepted (count : Nat)
  | error (errno : Nat)

structure CommitOutcome where
  ret : Option Int
  ld : LibaioData
  submitted : List (Option Nat)

def commitLoop : List SubmitAnswer → LibaioData → List (Option Nat) → CommitOutcome
  | [], ld, submitted => ⟨none, ld, submitted⟩
  | answer :: rest, ld, submitted =>
      let nr := min ld.queued (ld.entries - ld.tail)
      match answer with
      | .accepted count =>
          let ret := min count nr
          let submitted := submitted ++ (List.range ret).map fun i => ld.ioUs (ld.tail + i)
          let ld :=
            if 0 < ret then
              { ld with queued := ld.queued - ret, tail := ringInc ld ld.tail ret }
            else ld
          if ld.queued ≠ 0 then commitLoop rest ld submitted else ⟨some 0, ld, submitted⟩
      | .error errno =>
          if errno = eintr then
            if ld.queued ≠ 0 then commitLoop rest ld submitted
            else ⟨some (-errno), ld, submitted⟩
          else if errno = eagain ∨ errno = enomem then
            ⟨some (if ld.queued ≠ 0 then 0 else -errno), ld, submitted⟩
          else
            ⟨some (-errno), ld, submitted⟩

def fioLibaioCommit (answers : List SubmitAnswer) (ld : LibaioData)
    (submitted : List (Option Nat)) : CommitOutcome :=
  if ld.queued = 0 then ⟨some 0, ld, submitted⟩ else commitLoop answers ld submitted

inductive ReapAnswer where
  | events (done : List Nat)
  | error (errno : Nat)

/-- One round of `fio_libaio_getevents`: what the kernel reports, and what it
answers to the submissions if the round commits. -/
structure ReapRound where
  reaped : ReapAnswer
  submits : List SubmitAnswer

structure ReapOutcome where
  ret : Option Int
  ld : LibaioData
  submitted : List (Option Nat)
  events : List Nat

def reapLoop (min max : Nat) :
    List ReapRound → LibaioData → List (Option Nat) → List Nat → ReapOutcome
  | [], ld, submitted, events => ⟨none, ld, submitted, events⟩
  | round :: rest, ld, submitted, events =>
      let committed := fioLibaioCommit round.submits ld submitted
      match round.reaped with
      | .events done =>
          let done := done.take (max - events.length)
          if done ≠ [] then
            let events := events ++ done
            if events.length < min then reapLoop min max rest ld submitted events
            else ⟨some events.length, ld, submitted, events⟩
          else if min ≠ 0 then
            if committed.ret = none then ⟨none, committed.ld, committed.submitted, events⟩
            else if events.length < min then
              reapLoop min max rest committed.ld committed.submitted events
            else ⟨some events.length, committed.ld, committed.submitted, events⟩
          else ⟨some events.length, ld, submitted, events⟩
      | .error errno =>
          if errno = eagain then
            if committed.ret = none then ⟨none, committed.ld, committed.submitted, events⟩
            else if events.length < min then
              reapLoop min max rest committed.ld committed.submitted events
            else ⟨some (-errno), committed.ld, committed.submitted, events⟩
          else if errno = eintr ∧ events.length < min then
            reapLoop min max rest ld submitted events
          else ⟨some (-errno), ld, submitted, events⟩

def fioLibaioGetevents (min max : Nat) (rounds : List ReapRound) (ld : LibaioData)
    (submitted : List (Option Nat)) : ReapOutcome :=
  reapLoop min max rounds ld submitted []

/-! ## Runs -/

inductive AioEvent where
  | queue (ioU : Nat) (ddir : IoDirection)
  | commit (answers : List SubmitAnswer)
  | getevents (min max : Nat) (rounds : List ReapRound)

/-- The engine with what it has been given and what it has handed on: the I/Os
that were put into the ring, the slots the kernel took, both in order. -/
structure AioRun where
  iodepth : Nat
  ld : LibaioData
  ioUs : List Nat
  submitted : List (Option Nat)

def startAio (iodepth : Nat) : AioRun := ⟨iodepth, fioLibaioInit iodepth, [], []⟩

def aioStep (run : AioRun) : AioEvent → AioRun
  | .queue ioU ddir =>
      let (status, ld) := fioLibaioQueue run.iodepth run.ld ioU ddir
      { run with ld, ioUs := if status = .queued then run.ioUs ++ [ioU] else run.ioUs }
  | .commit answers =>
      let outcome := fioLibaioCommit answers run.ld run.submitted
      { run with ld := outcome.ld, submitted := outcome.submitted }
  | .getevents min max rounds =>
      let outcome := fioLibaioGetevents min max rounds run.ld run.submitted
      { run with ld := outcome.ld, submitted := outcome.submitted }

/-- What was put into the ring is what the kernel took, followed by what the
ring holds between its tail and its head. -/
structure RingHolds (iodepth : Nat) (ld : LibaioData) (ioUs : List Nat)
    (submitted : List (Option Nat)) : Prop where
  positive : 0 < iodepth
  entries : ld.entries = iodepth
  pow2 : ld.isPow2 = isPowerOf2 iodepth
  tail : ld.tail < iodepth
  room : ld.queued ≤ iodepth
  head : ld.head = (ld.tail + ld.queued) % iodepth
  order : submitted ++ contents ld.ioUs iodepth ld.tail ld.queued = ioUs.map some

section Ring

variable {iodepth : Nat} {ld : LibaioData} {ioUs : List Nat} {submitted : List (Option Nat)}

/-- The mask and the remainder are the same increment. -/
theorem ringInc_eq (holds : RingHolds iodepth ld ioUs submitted) (val add : Nat) :
    ringInc ld val add = (val + add) % iodepth := by
  rw [ringInc, holds.entries]
  by_cases power : ld.isPow2 = true
  · rw [if_pos power]
    rw [holds.pow2, isPowerOf2, decide_eq_true_eq] at power
    exact and_pred_eq_mod power.1 power.2 (val + add)
  · rw [if_neg power]

theorem ringHolds_start (positive : 0 < iodepth) :
    RingHolds iodepth (fioLibaioInit iodepth) [] [] where
  positive := positive
  entries := rfl
  pow2 := rfl
  tail := positive
  room := Nat.zero_le _
  head := (Nat.zero_mod iodepth).symm
  order := rfl

theorem RingHolds.queue (holds : RingHolds iodepth ld ioUs submitted) (ioU : Nat)
    (ddir : IoDirection) :
    RingHolds iodepth (fioLibaioQueue iodepth ld ioU ddir).2
      (if (fioLibaioQueue iodepth ld ioU ddir).1 = .queued then ioUs ++ [ioU] else ioUs)
      submitted := by
  rw [fioLibaioQueue]
  by_cases full : ld.queued = iodepth
  · rw [if_pos full]
    exact holds
  · rw [if_neg full]
    by_cases apart : ddir = .sync ∨ ddir = .trim
    · rw [if_pos apart]
      by_cases pending : ld.queued ≠ 0
      · rw [if_pos pending]
        exact holds
      · rw [if_neg pending]
        exact holds
    · rw [if_neg apart, if_pos rfl]
      have room := holds.room
      refine ⟨holds.positive, holds.entries, holds.pow2, holds.tail, ?_, ?_, ?_⟩
      · show ld.queued + 1 ≤ iodepth
        omega
      · show ringInc ld ld.head 1 = (ld.tail + (ld.queued + 1)) % iodepth
        rw [ringInc_eq holds, holds.head, Nat.mod_add_mod, Nat.add_assoc]
      · show submitted ++ contents (Function.update ld.ioUs ld.head (some ioU)) iodepth ld.tail
          (ld.queued + 1) = (ioUs ++ [ioU]).map some
        rw [holds.head, contents_write ld.ioUs (by omega), ← List.append_assoc, holds.order,
          List.map_append]
        rfl

/-- The kernel takes some of the slots from the tail to the end of the array. -/
theorem RingHolds.accept (holds : RingHolds iodepth ld ioUs submitted) {ret : Nat}
    (offered : ret ≤ min ld.queued (ld.entries - ld.tail)) :
    RingHolds iodepth { ld with queued := ld.queued - ret, tail := ringInc ld ld.tail ret } ioUs
      (submitted ++ (List.range ret).map fun i => ld.ioUs (ld.tail + i)) := by
  have room := holds.room
  have tail := holds.tail
  rw [holds.entries] at offered
  refine ⟨holds.positive, holds.entries, holds.pow2, ?_, ?_, ?_, ?_⟩
  · show ringInc ld ld.tail ret < iodepth
    rw [ringInc_eq holds]
    exact Nat.mod_lt _ holds.positive
  · show ld.queued - ret ≤ iodepth
    omega
  · show ld.head = (ringInc ld ld.tail ret + (ld.queued - ret)) % iodepth
    rw [ringInc_eq holds, Nat.mod_add_mod, Nat.add_assoc, Nat.add_sub_cancel' (by omega),
      holds.head]
  · show submitted ++ (List.range ret).map (fun i => ld.ioUs (ld.tail + i)) ++
      contents ld.ioUs iodepth (ringInc ld ld.tail ret) (ld.queued - ret) = ioUs.map some
    rw [ringInc_eq holds, List.append_assoc,
      ← contents_contiguous ld.ioUs (by omega : ld.tail + ret ≤ iodepth), ← contents_add,
      Nat.add_sub_cancel' (by omega), holds.order]

/-- One answer of the kernel, whether it takes slots or not. -/
theorem RingHolds.answered (holds : RingHolds iodepth ld ioUs submitted) (count : Nat) :
    RingHolds iodepth
      (if 0 < min count (min ld.queued (ld.entries - ld.tail)) then
        { ld with
          queued := ld.queued - min count (min ld.queued (ld.entries - ld.tail))
          tail := ringInc ld ld.tail (min count (min ld.queued (ld.entries - ld.tail))) }
      else ld) ioUs
      (submitted ++ (List.range (min count (min ld.queued (ld.entries - ld.tail)))).map
        fun i => ld.ioUs (ld.tail + i)) := by
  have offered := Nat.min_le_right count (min ld.queued (ld.entries - ld.tail))
  generalize min count (min ld.queued (ld.entries - ld.tail)) = ret at offered ⊢
  by_cases taken : 0 < ret
  · rw [if_pos taken]
    exact holds.accept offered
  · rw [if_neg taken]
    obtain rfl : ret = 0 := by omega
    rw [List.range_zero, List.map_nil, List.append_nil]
    exact holds

theorem RingHolds.commitLoop :
    ∀ (answers : List SubmitAnswer) {ld : LibaioData} {submitted : List (Option Nat)},
      RingHolds iodepth ld ioUs submitted →
        RingHolds iodepth (commitLoop answers ld submitted).ld ioUs
          (commitLoop answers ld submitted).submitted := by
  intro answers
  induction answers with
  | nil => intro ld submitted holds; exact holds
  | cons answer rest ih =>
      intro ld submitted holds
      cases answer with
      | accepted count =>
          have answered := holds.answered count
          simp only [Fio.commitLoop]
          generalize (if 0 < min count (min ld.queued (ld.entries - ld.tail)) then
            { ld with
              queued := ld.queued - min count (min ld.queued (ld.entries - ld.tail))
              tail := ringInc ld ld.tail (min count (min ld.queued (ld.entries - ld.tail))) }
            else ld) = next at answered ⊢
          by_cases pending : next.queued ≠ 0
          · rw [if_pos pending]
            exact ih answered
          · rw [if_neg pending]
            exact answered
      | error errno =>
          simp only [Fio.commitLoop]
          by_cases interrupted : errno = eintr
          · rw [if_pos interrupted]
            by_cases pending : ld.queued ≠ 0
            · rw [if_pos pending]
              exact ih holds
            · rw [if_neg pending]
              exact holds
          · rw [if_neg interrupted]
            by_cases full : errno = eagain ∨ errno = enomem
            · rw [if_pos full]
              exact holds
            · rw [if_neg full]
              exact holds

theorem RingHolds.commit (holds : RingHolds iodepth ld ioUs submitted)
    (answers : List SubmitAnswer) :
    RingHolds iodepth (fioLibaioCommit answers ld submitted).ld ioUs
      (fioLibaioCommit answers ld submitted).submitted := by
  rw [fioLibaioCommit]
  by_cases empty : ld.queued = 0
  · rw [if_pos empty]
    exact holds
  · rw [if_neg empty]
    exact holds.commitLoop answers

/-- The ring a reap leaves, whether it has returned or not. -/
def ReapOutcome.Holds (iodepth : Nat) (ioUs : List Nat) (outcome : ReapOutcome) : Prop :=
  RingHolds iodepth outcome.ld ioUs outcome.submitted

theorem RingHolds.reapLoop (min max : Nat) :
    ∀ (rounds : List ReapRound) {ld : LibaioData} {submitted : List (Option Nat)}
      (events : List Nat), RingHolds iodepth ld ioUs submitted →
        (reapLoop min max rounds ld submitted events).Holds iodepth ioUs := by
  intro rounds
  induction rounds with
  | nil => intro ld submitted events holds; exact holds
  | cons round rest ih =>
      intro ld submitted events holds
      obtain ⟨reaped, submits⟩ := round
      -- a round that commits goes on, returns, or still waits for the kernel
      have afterCommit : ∀ ret : Int, ReapOutcome.Holds iodepth ioUs
          (if (fioLibaioCommit submits ld submitted).ret = none then
            ⟨none, (fioLibaioCommit submits ld submitted).ld,
              (fioLibaioCommit submits ld submitted).submitted, events⟩
          else if events.length < min then
            Fio.reapLoop min max rest (fioLibaioCommit submits ld submitted).ld
              (fioLibaioCommit submits ld submitted).submitted events
          else ⟨some ret, (fioLibaioCommit submits ld submitted).ld,
            (fioLibaioCommit submits ld submitted).submitted, events⟩) := by
        intro ret
        have committed := holds.commit submits
        by_cases waits : (fioLibaioCommit submits ld submitted).ret = none
        · rw [if_pos waits]
          exact committed
        · rw [if_neg waits]
          by_cases few : events.length < min
          · rw [if_pos few]
            exact ih events committed
          · rw [if_neg few]
            exact committed
      cases reaped with
      | events done =>
          simp only [Fio.reapLoop]
          by_cases reported : done.take (max - events.length) ≠ []
          · rw [if_pos reported]
            by_cases few : (events ++ done.take (max - events.length)).length < min
            · rw [if_pos few]
              exact ih _ holds
            · rw [if_neg few]
              exact holds
          · rw [if_neg reported]
            by_cases asked : min ≠ 0
            · rw [if_pos asked]
              exact afterCommit events.length
            · rw [if_neg asked]
              exact holds
      | error errno =>
          simp only [Fio.reapLoop]
          by_cases again : errno = eagain
          · rw [if_pos again]
            exact afterCommit (-errno)
          · rw [if_neg again]
            by_cases interrupted : errno = eintr ∧ events.length < min
            · rw [if_pos interrupted]
              exact ih events holds
            · rw [if_neg interrupted]
              exact holds

end Ring

theorem aioStep_holds {run : AioRun}
    (holds : RingHolds run.iodepth run.ld run.ioUs run.submitted) (event : AioEvent) :
    RingHolds (aioStep run event).iodepth (aioStep run event).ld (aioStep run event).ioUs
      (aioStep run event).submitted := by
  cases event with
  | queue ioU ddir => exact holds.queue ioU ddir
  | commit answers => exact holds.commit answers
  | getevents min max rounds => exact holds.reapLoop min max rounds []

theorem aioStep_iodepth (run : AioRun) (event : AioEvent) :
    (aioStep run event).iodepth = run.iodepth := by
  cases event <;> rfl

theorem aioRun_holds (events : List AioEvent) :
    ∀ {run : AioRun}, RingHolds run.iodepth run.ld run.ioUs run.submitted →
      (events.foldl aioStep run).iodepth = run.iodepth ∧
      RingHolds run.iodepth (events.foldl aioStep run).ld (events.foldl aioStep run).ioUs
        (events.foldl aioStep run).submitted := by
  induction events with
  | nil => intro run holds; exact ⟨rfl, holds⟩
  | cons event rest ih =>
      intro run holds
      have next := ih (aioStep_holds holds event)
      rw [aioStep_iodepth] at next
      exact next

def aioRun (iodepth : Nat) (events : List AioEvent) : AioRun :=
  events.foldl aioStep (startAio iodepth)

theorem aioRun_ringHolds {iodepth : Nat} (positive : 0 < iodepth) (events : List AioEvent) :
    RingHolds iodepth (aioRun iodepth events).ld (aioRun iodepth events).ioUs
      (aioRun iodepth events).submitted := by
  have start : RingHolds (startAio iodepth).iodepth (startAio iodepth).ld (startAio iodepth).ioUs
      (startAio iodepth).submitted := ringHolds_start positive
  exact (aioRun_holds events start).2

/-- Whatever is queued, committed and reaped, and whatever the kernel answers:
the kernel has been handed the I/Os of the ring in the order they were queued,
each of them once, and those it has not been handed are in the ring, which never
holds more than the I/O depth. -/
theorem libaio_submits_in_order {iodepth : Nat} (positive : 0 < iodepth)
    (events : List AioEvent) :
    (aioRun iodepth events).submitted ++
        contents (aioRun iodepth events).ld.ioUs iodepth (aioRun iodepth events).ld.tail
          (aioRun iodepth events).ld.queued =
      (aioRun iodepth events).ioUs.map some ∧
    (aioRun iodepth events).ld.queued ≤ iodepth ∧
    (aioRun iodepth events).ld.head < iodepth ∧ (aioRun iodepth events).ld.tail < iodepth := by
  have holds := aioRun_ringHolds positive events
  exact ⟨holds.order, holds.room, by rw [holds.head]; exact Nat.mod_lt _ positive, holds.tail⟩

/-- A ring of three slots that wraps, with a kernel that takes two I/Os, is
interrupted and then has no room. -/
theorem libaio_submits_in_order_three :
    (aioRun 3 [.queue 10 .read, .queue 11 .write, .commit [.accepted 5], .queue 12 .read,
        .queue 13 .read, .commit [.error 4, .accepted 1, .error 11]]).submitted ++
      contents (aioRun 3 [.queue 10 .read, .queue 11 .write, .commit [.accepted 5],
          .queue 12 .read, .queue 13 .read, .commit [.error 4, .accepted 1, .error 11]]).ld.ioUs 3
        (aioRun 3 [.queue 10 .read, .queue 11 .write, .commit [.accepted 5], .queue 12 .read,
          .queue 13 .read, .commit [.error 4, .accepted 1, .error 11]]).ld.tail
        (aioRun 3 [.queue 10 .read, .queue 11 .write, .commit [.accepted 5], .queue 12 .read,
          .queue 13 .read, .commit [.error 4, .accepted 1, .error 11]]).ld.queued =
      [some 10, some 11, some 12, some 13] :=
  (libaio_submits_in_order (by decide : 0 < 3) _).1

/-! ## A kernel that makes progress -/

/-- The kernel takes something, takes nothing, or was interrupted. -/
def SubmitAnswer.Patient : SubmitAnswer → Prop
  | .accepted _ => True
  | .error errno => errno = eintr

def SubmitAnswer.takes : SubmitAnswer → Bool
  | .accepted count => decide (0 < count)
  | .error _ => false

theorem commitLoop_drains {iodepth : Nat} {ioUs : List Nat} :
    ∀ (answers : List SubmitAnswer) {ld : LibaioData} {submitted : List (Option Nat)},
      RingHolds iodepth ld ioUs submitted → ld.queued ≠ 0 →
      (∀ answer ∈ answers, answer.Patient) → ld.queued ≤ answers.countP SubmitAnswer.takes →
        (commitLoop answers ld submitted).ret = some 0 ∧
          (commitLoop answers ld submitted).ld.queued = 0 := by
  intro answers
  induction answers with
  | nil =>
      intro ld submitted _ pending _ enough
      rw [List.countP_nil] at enough
      omega
  | cons answer rest ih =>
      intro ld submitted holds pending patient enough
      have restPatient : ∀ answer ∈ rest, answer.Patient :=
        fun other member => patient other (List.mem_cons_of_mem answer member)
      rw [List.countP_cons] at enough
      cases answer with
      | error errno =>
          have interrupted : errno = eintr := patient (.error errno) List.mem_cons_self
          simp only [commitLoop, if_pos interrupted, if_pos pending]
          exact ih holds pending restPatient enough
      | accepted count =>
          have answered := holds.answered count
          have tail := holds.tail
          have entries := holds.entries
          simp only [commitLoop]
          by_cases taken : 0 < min count (min ld.queued (ld.entries - ld.tail))
          · rw [if_pos taken] at answered ⊢
            by_cases left : ld.queued - min count (min ld.queued (ld.entries - ld.tail)) ≠ 0
            · rw [if_pos left]
              refine ih answered left restPatient ?_
              show ld.queued - min count (min ld.queued (ld.entries - ld.tail)) ≤ _
              by_cases some' : SubmitAnswer.takes (.accepted count) = true
              · rw [if_pos some'] at enough
                omega
              · rw [if_neg some'] at enough
                omega
            · rw [if_neg left]
              exact ⟨rfl, not_not.mp left⟩
          · rw [if_neg taken] at answered ⊢
            have nothing : SubmitAnswer.takes (.accepted count) = false := by
              rw [SubmitAnswer.takes, decide_eq_false_iff_not]
              omega
            rw [nothing, if_neg Bool.false_ne_true] at enough
            rw [if_pos pending]
            exact ih answered pending restPatient enough

/-- From any state a run reaches, a commit during which the kernel takes
something as often as there are I/Os in the ring hands over all of them. -/
theorem libaio_commit_drains {iodepth : Nat} (positive : 0 < iodepth) (events : List AioEvent)
    (answers : List SubmitAnswer) (patient : ∀ answer ∈ answers, answer.Patient)
    (enough : (aioRun iodepth events).ld.queued ≤ answers.countP SubmitAnswer.takes) :
    (fioLibaioCommit answers (aioRun iodepth events).ld
        (aioRun iodepth events).submitted).ret = some 0 ∧
      (aioRun iodepth (events ++ [.commit answers])).ld.queued = 0 ∧
      (aioRun iodepth (events ++ [.commit answers])).submitted =
        (aioRun iodepth events).ioUs.map some := by
  have holds := aioRun_ringHolds positive events
  have committed := holds.commit answers
  have drained : (fioLibaioCommit answers (aioRun iodepth events).ld
      (aioRun iodepth events).submitted).ret = some 0 ∧
      (fioLibaioCommit answers (aioRun iodepth events).ld
        (aioRun iodepth events).submitted).ld.queued = 0 := by
    rw [fioLibaioCommit]
    by_cases empty : (aioRun iodepth events).ld.queued = 0
    · rw [if_pos empty]
      exact ⟨rfl, empty⟩
    · rw [if_neg empty]
      exact commitLoop_drains answers holds empty patient enough
  have last : aioRun iodepth (events ++ [.commit answers]) =
      aioStep (aioRun iodepth events) (.commit answers) := by
    rw [aioRun, List.foldl_append]
    rfl
  have order := committed.order
  rw [drained.2, contents_zero, List.append_nil] at order
  rw [last]
  exact ⟨drained.1, drained.2, order⟩

theorem libaio_commit_drains_two :
    (aioRun 4 ([.queue 7 .read, .queue 8 .read] ++
      [.commit [.accepted 1, .error 4, .accepted 1]])).submitted = [some 7, some 8] :=
  (libaio_commit_drains (by decide : 0 < 4) [.queue 7 .read, .queue 8 .read]
    [.accepted 1, .error 4, .accepted 1]
    (by simp [SubmitAnswer.Patient, eintr]) (by decide)).2.2

end RaptorMark.Fio
