import Mathlib.Data.List.Basic
import Mathlib.Logic.Function.Basic
import RaptorMark.Data.TestCase

/-!
# fio's job state

The global variables that keep fio's jobs: `thread_number`, and the segments of
`thread_data` that `get_new_job` fills and `tnumber_to_td` reads.  A call of
`fio` appends the jobs of its command and reports on all threads; it takes
nothing away when it ends.
-/

set_option autoImplicit false

namespace RaptorMark.Fio

def jobsPerSeg : Nat := 8

def realMaxSeg : Nat := 4096 / jobsPerSeg

/-- What a report tells of one `thread_data`. -/
structure Job where
  name : String
  subjobNumber : Nat
  /-- History: the call of `fio` that added it. -/
  call : Nat
  deriving DecidableEq, Repr

structure JobState where
  threadNumber : Nat
  nrSegments : Nat
  curSegment : Nat
  /-- The threads in use of each segment. -/
  segments : Nat → List Job

namespace JobState

/-- The static initialisation of the library. -/
def loadTime : JobState where
  threadNumber := 0
  nrSegments := 0
  curSegment := 0
  segments := fun _ => []

def addThreadSegment (state : JobState) : Option JobState :=
  if state.nrSegments + 1 ≥ realMaxSeg then
    none
  else
    some { state with
      segments := Function.update state.segments state.nrSegments []
      nrSegments := state.nrSegments + 1
      curSegment := if state.nrSegments + 1 ≠ 1 then state.curSegment + 1 else state.curSegment }

def expandThreadArea (state : JobState) : Option JobState :=
  if state.nrSegments ≠ 0 ∧ (state.segments state.curSegment).length < jobsPerSeg then
    some state
  else
    state.addThreadSegment

/-- `none` when the maximum number of jobs is reached; the caller then exits. -/
def getNewJob (state : JobState) (job : Job) : Option JobState := do
  let expanded ← state.expandThreadArea
  let seg := expanded.curSegment
  return { expanded with
    segments := Function.update expanded.segments seg (expanded.segments seg ++ [job])
    threadNumber := expanded.threadNumber + 1 }

def tnumberToTd (state : JobState) (tnumber : Nat) : Option Job :=
  (state.segments (tnumber / jobsPerSeg))[tnumber % jobsPerSeg]?

/-- The threads that `for_each_td` visits for a report. -/
def reported (state : JobState) : List (Option Job) :=
  (List.range state.threadNumber).map state.tnumberToTd

/-- `while (--numjobs)` of `add_job`. -/
def subjobs : Nat → List Nat
  | 0 => []
  | count + 1 => (count + 1) :: subjobs count

/-- The jobs that `add_job` adds for the command of a test. -/
def commandJobs (call : Nat) (testCase : TestCase) : List Job :=
  (0 :: subjobs (testCase.numJobs - 1)).map fun subjobNumber =>
    { name := testCase.name, subjobNumber, call }

/-- The job side of `fio`: parsing the command adds its jobs. -/
def addJobs (state : JobState) (jobs : List Job) : Option JobState :=
  jobs.foldlM getNewJob state

/-! ## The segments as one list -/

/-- The most jobs that the segments take. -/
def maxJobs : Nat := jobsPerSeg * (realMaxSeg - 1)

theorem maxJobs_eq : maxJobs = 4088 := rfl

/-- The segments hold the jobs in order, each but the last one full. -/
structure Holds (state : JobState) (jobs : List Job) : Prop where
  count : state.threadNumber = jobs.length
  segmentCount : state.nrSegments = (jobs.length + 7) / 8
  current : state.curSegment = (jobs.length - 1) / 8
  content : ∀ seg, state.segments seg = (jobs.drop (8 * seg)).take 8

theorem holds_loadTime : Holds loadTime [] where
  count := rfl
  segmentCount := rfl
  current := rfl
  content := by simp [loadTime]

/-- After `expand_thread_area` the current segment is the one the next job
belongs to; the segments hold the same jobs. -/
theorem expandThreadArea_holds (state : JobState) (jobs : List Job) (holds : Holds state jobs)
    (room : jobs.length < maxJobs) :
    ∃ expanded, state.expandThreadArea = some expanded ∧
      expanded.threadNumber = jobs.length ∧ expanded.nrSegments = jobs.length / 8 + 1 ∧
      expanded.curSegment = jobs.length / 8 ∧
      ∀ seg, expanded.segments seg = (jobs.drop (8 * seg)).take 8 := by
  obtain ⟨count, segmentCount, current, content⟩ := holds
  rw [maxJobs_eq] at room
  unfold expandThreadArea
  by_cases fits : state.nrSegments ≠ 0 ∧ (state.segments state.curSegment).length < jobsPerSeg
  · refine ⟨state, if_pos fits, count, ?_, ?_, content⟩
    · rw [content] at fits
      simp only [List.length_take, List.length_drop, jobsPerSeg] at fits
      omega
    · rw [content] at fits
      simp only [List.length_take, List.length_drop, jobsPerSeg] at fits
      omega
  · have full := fits
    rw [content] at full
    simp only [List.length_take, List.length_drop, jobsPerSeg] at full
    rw [if_neg fits, addThreadSegment, if_neg (by simp only [realMaxSeg, jobsPerSeg]; omega)]
    refine ⟨_, rfl, count, ?_, ?_, ?_⟩
    · dsimp only
      omega
    · dsimp only
      split <;> omega
    · intro seg
      dsimp only
      by_cases same : seg = state.nrSegments
      · subst same
        rw [Function.update_self, List.drop_eq_nil_of_le (by omega), List.take_nil]
      · rw [Function.update_of_ne same]
        exact content seg

theorem getNewJob_holds (state : JobState) (jobs : List Job) (job : Job)
    (holds : Holds state jobs) (room : jobs.length < maxJobs) :
    ∃ next, state.getNewJob job = some next ∧ Holds next (jobs ++ [job]) := by
  obtain ⟨expanded, expands, count, segmentCount, current, content⟩ :=
    expandThreadArea_holds state jobs holds room
  unfold getNewJob
  rw [expands]
  refine ⟨_, rfl, ?_, ?_, ?_, ?_⟩
  · simp [count]
  · simp only [segmentCount, List.length_append, List.length_singleton]
    omega
  · simp only [current, List.length_append, List.length_singleton]
    omega
  · intro seg
    simp only [current]
    by_cases same : seg = jobs.length / 8
    · subst same
      rw [Function.update_self, content, List.drop_append_of_le_length (by omega)]
      rw [List.take_of_length_le (by simp; omega), List.take_of_length_le (by simp; omega)]
    · rw [Function.update_of_ne same, content]
      by_cases earlier : seg < jobs.length / 8
      · rw [List.drop_append_of_le_length (by omega),
          List.take_append_of_le_length (by simp; omega)]
      · rw [List.drop_eq_nil_of_le (by omega), List.drop_eq_nil_of_le (by simp; omega)]

theorem addJobs_holds (state : JobState) (jobs more : List Job) (holds : Holds state jobs)
    (room : jobs.length + more.length ≤ maxJobs) :
    ∃ next, state.addJobs more = some next ∧ Holds next (jobs ++ more) := by
  induction more generalizing state jobs with
  | nil => exact ⟨state, rfl, by simpa using holds⟩
  | cons job rest ih =>
      rw [List.length_cons] at room
      obtain ⟨middle, added, middleHolds⟩ := getNewJob_holds state jobs job holds (by omega)
      obtain ⟨next, others, nextHolds⟩ := ih middle (jobs ++ [job]) middleHolds (by simp; omega)
      refine ⟨next, ?_, by simpa using nextHolds⟩
      rw [addJobs, List.foldlM_cons, added]
      exact others

theorem reported_holds (state : JobState) (jobs : List Job) (holds : Holds state jobs) :
    state.reported = jobs.map some := by
  apply List.ext_getElem?
  intro index
  rw [reported, holds.count, List.getElem?_map, List.getElem?_map]
  by_cases inside : index < jobs.length
  · rw [List.getElem?_range inside]
    simp only [Option.map_some, tnumberToTd, holds.content, jobsPerSeg]
    rw [List.getElem?_take_of_lt (by omega), List.getElem?_drop]
    rw [show 8 * (index / 8) + index % 8 = index by omega]
    simp [inside]
  · rw [List.getElem?_eq_none (by simp; omega), List.getElem?_eq_none (by omega)]
    rfl

end JobState

end RaptorMark.Fio
