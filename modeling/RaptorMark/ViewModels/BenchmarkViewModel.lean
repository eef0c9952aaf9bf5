import RaptorMark.Data.RunTestSpec
import RaptorMark.Lib.Transition

/-!
# The benchmark view model and the native thread

`onTestStart` posts a block to the process-wide native thread; `onTestStop`
raises a flag.  The machine below interleaves the two view-model functions,
called on the UI thread, with the steps of the native thread: taking a block
from the queue, one iteration of the `forEach` over the test items, the
computation of the score with the launch of the insertion, and the two writes
that end a block.  `forceStop` is read once for each iteration, and nothing
else of the UI thread is seen by a running test, so an iteration is one step.

The fields called *history* are not in the source: no step reads them, they
keep what happened for the statements about whole runs.
-/

set_option autoImplicit false

namespace RaptorMark

open Lib Lib.Kotlin

/-- `Map<TestCase, String>`. -/
abbrev Results := TestCase → Option String

structure TestRecord where
  id : Int64 := 0
  timestamp : Int64
  score : Int32 := 0
  results : Results := fun _ => none

def Results.setResult (results : Results) (testCase : TestCase) (result : String) : Results :=
  Function.update results testCase (some result)

/-- `setResult(it.testCase, it.runTest() ?: return@forEach)` under the `try`: a
null result and a caught exception both leave the record as it was. -/
def Results.recordReturned (results : Results) (testCase : TestCase) :
    Except JavaException (Option String) → Results
  | .ok (some result) => results.setResult testCase result
  | .ok none => results
  | .error _ => results

structure BenchmarkState where
  running : Bool := false
  score : Int32 := 0
  deriving DecidableEq, Repr

structure ViewModel where
  forceStop : Bool := false
  benchmarkState : BenchmarkState := {}

/-- History of one executed test. -/
structure TestRun where
  testCase : TestCase
  outcome : NativeOutcome
  returned : Except JavaException (Option String)

/-- A posted block: its view model and the `testRecord` it captured. -/
structure Run where
  owner : Nat
  results : Results := fun _ => none
  /-- History: the tests that were run, in order. -/
  executed : List TestRun := []
  /-- History: a stop was requested after the start and before the last test. -/
  stopRequested : Bool := false

/-- Where the native thread is inside a block. -/
inductive Phase where
  | testing (remaining : List TestCase)
  | launched (score : Int32)
  | stopReset (score : Int32)

/-- An insertion handed to `viewModelScope`. -/
structure Launch where
  record : TestRecord
  /-- History: the block that launched it. -/
  run : Run
  /-- History: the `testResult` of every test item at that moment. -/
  shown : TestCase → Option TestResult

structure App where
  world : World
  viewModels : Nat → ViewModel
  queue : List Run
  current : Option (Run × Phase)
  launches : List Launch

inductive NativeStep where
  | dequeue
  | test (outcome : NativeOutcome)
  | score (now : Int64)
  | resetForceStop
  | resetRunning

inductive Event where
  | onTestStart (owner : Nat)
  | onTestStop (owner : Nat)
  | native (action : NativeStep)

/-- `testItems.sumOf { it.testCase.weight * (it.testResult?.calculateScore() ?: 0.0) }`. -/
def weightedScore (results : TestCase → Option TestResult) : ℚ :=
  (TestCase.entries.map fun testCase =>
    testCase.weight * (results testCase).elim 0 TestResult.calculateScore).foldl (· + ·) 0

namespace App

/-- A fresh process: no view model has run anything yet. -/
def start (filePath : TestRef → String) (files : Finset String) : App where
  world := { tests := fun ref => { filePath := filePath ref }, listeners := .empty, files }
  viewModels := fun _ => {}
  queue := []
  current := none
  launches := []

def setViewModel (app : App) (owner : Nat) (viewModel : ViewModel) : App :=
  { app with viewModels := Function.update app.viewModels owner viewModel }

def onTestStart (app : App) (owner : Nat) : App :=
  let viewModel := app.viewModels owner
  let started := app.setViewModel owner { viewModel with benchmarkState := ⟨true, 0⟩ }
  { started with queue := app.queue ++ [{ owner }] }

/-- History: a block that can still read the flag notes the request. -/
def noteStop (owner : Nat) (run : Run) : Run :=
  if run.owner = owner then { run with stopRequested := true } else run

def noteStopCurrent (owner : Nat) : Run × Phase → Run × Phase
  | (run, .testing (testCase :: remaining)) =>
      (noteStop owner run, .testing (testCase :: remaining))
  | other => other

def onTestStop (app : App) (owner : Nat) : App :=
  let stopped := app.setViewModel owner { app.viewModels owner with forceStop := true }
  { stopped with
    queue := app.queue.map (noteStop owner)
    current := app.current.map (noteStopCurrent owner) }

/-- The body of the `forEach`.  `return@forEach` goes on with the next item. -/
def forEachBody (json : OrgJson) (app : App) (run : Run) (testCase : TestCase)
    (remaining : List TestCase) (outcome : NativeOutcome) : App :=
  if (app.viewModels run.owner).forceStop then
    { app with current := some (run, .testing remaining) }
  else
    let (world, returned) := app.world.runTest json ⟨run.owner, testCase⟩ outcome
    let results := run.results.recordReturned testCase returned
    let executed := run.executed ++ [⟨testCase, outcome, returned⟩]
    { app with world, current := some ({ run with results, executed }, .testing remaining) }

/-- `testItems.associate { it.testCase to it.testResult }`. -/
def shown (app : App) (owner : Nat) : TestCase → Option TestResult :=
  fun testCase => (app.world.tests ⟨owner, testCase⟩).testResult

/-- After the loop: the score, the final record and the launch. -/
def finishTests (app : App) (run : Run) (now : Int64) : App :=
  let shown := app.shown run.owner
  let calculatedScore := doubleToInt (weightedScore shown)
  let record := { timestamp := now, score := calculatedScore, results := run.results }
  { app with
    launches := app.launches ++ [{ record, run, shown }]
    current := some (run, .launched calculatedScore) }

def nativeStep (json : OrgJson) (app : App) : NativeStep → Option App
  | .dequeue =>
      match app.current, app.queue with
      | none, run :: rest =>
          some { app with queue := rest, current := some (run, .testing TestCase.entries) }
      | _, _ => none
  | .test outcome =>
      match app.current with
      | some (run, .testing (testCase :: remaining)) =>
          some (app.forEachBody json run testCase remaining outcome)
      | _ => none
  | .score now =>
      match app.current with
      | some (run, .testing []) => some (app.finishTests run now)
      | _ => none
  | .resetForceStop =>
      match app.current with
      | some (run, .launched score) =>
          let viewModel := app.viewModels run.owner
          some { app.setViewModel run.owner { viewModel with forceStop := false } with
            current := some (run, .stopReset score) }
      | _ => none
  | .resetRunning =>
      match app.current with
      | some (run, .stopReset score) =>
          let viewModel := app.viewModels run.owner
          some { app.setViewModel run.owner
              { viewModel with benchmarkState := ⟨false, score⟩ } with
            current := none }
      | _ => none

def step (json : OrgJson) (app : App) : Event → Option App
  | .onTestStart owner => some (app.onTestStart owner)
  | .onTestStop owner => some (app.onTestStop owner)
  | .native action => app.nativeStep json action

/-- What a step of the native thread can do, guards included. -/
inductive NativeTaken (json : OrgJson) (app : App) : NativeStep → App → Prop where
  | dequeue (run : Run) (rest : List Run) (idle : app.current = none)
      (queued : app.queue = run :: rest) :
      NativeTaken json app .dequeue
        { app with queue := rest, current := some (run, .testing TestCase.entries) }
  | skip (run : Run) (testCase : TestCase) (remaining : List TestCase) (outcome : NativeOutcome)
      (position : app.current = some (run, .testing (testCase :: remaining)))
      (stopped : (app.viewModels run.owner).forceStop = true) :
      NativeTaken json app (.test outcome) { app with current := some (run, .testing remaining) }
  | test (run : Run) (testCase : TestCase) (remaining : List TestCase) (outcome : NativeOutcome)
      (position : app.current = some (run, .testing (testCase :: remaining)))
      (unstopped : (app.viewModels run.owner).forceStop = false) :
      NativeTaken json app (.test outcome)
        { app with
          world := (app.world.runTest json ⟨run.owner, testCase⟩ outcome).1
          current := some
            ({ run with
                results := run.results.recordReturned testCase
                  (app.world.runTest json ⟨run.owner, testCase⟩ outcome).2
                executed := run.executed ++
                  [⟨testCase, outcome, (app.world.runTest json ⟨run.owner, testCase⟩ outcome).2⟩] },
              .testing remaining) }
  | score (run : Run) (now : Int64) (position : app.current = some (run, .testing [])) :
      NativeTaken json app (.score now) (app.finishTests run now)
  | resetForceStop (run : Run) (score : Int32)
      (position : app.current = some (run, .launched score)) :
      NativeTaken json app .resetForceStop
        { app.setViewModel run.owner { app.viewModels run.owner with forceStop := false } with
          current := some (run, .stopReset score) }
  | resetRunning (run : Run) (score : Int32)
      (position : app.current = some (run, .stopReset score)) :
      NativeTaken json app .resetRunning
        { app.setViewModel run.owner
            { app.viewModels run.owner with benchmarkState := ⟨false, score⟩ } with
          current := none }

theorem nativeStep_taken (json : OrgJson) (app next : App) (action : NativeStep)
    (taken : app.nativeStep json action = some next) : NativeTaken json app action next := by
  cases action with
  | dequeue =>
      simp only [nativeStep] at taken
      split at taken
      · rename_i run rest idle queued
        cases taken
        exact .dequeue run rest idle queued
      · cases taken
  | test outcome =>
      simp only [nativeStep] at taken
      split at taken
      · rename_i run testCase remaining position
        cases taken
        by_cases stopped : (app.viewModels run.owner).forceStop = true
        · simp only [forEachBody, if_pos stopped]
          exact .skip run testCase remaining outcome position stopped
        · simp only [forEachBody, if_neg stopped]
          exact .test run testCase remaining outcome position (Bool.eq_false_iff.mpr stopped)
      · cases taken
  | score now =>
      simp only [nativeStep] at taken
      split at taken
      · rename_i run position
        cases taken
        exact .score run now position
      · cases taken
  | resetForceStop =>
      simp only [nativeStep] at taken
      split at taken
      · rename_i run score position
        cases taken
        exact .resetForceStop run score position
      · cases taken
  | resetRunning =>
      simp only [nativeStep] at taken
      split at taken
      · rename_i run score position
        cases taken
        exact .resetRunning run score position
      · cases taken

theorem mem_queue_onTestStart (app : App) (owner : Nat) (run : Run)
    (member : run ∈ (app.onTestStart owner).queue) : run ∈ app.queue ∨ run = { owner } := by
  rcases List.mem_append.mp member with old | new
  · exact Or.inl old
  · exact Or.inr (List.mem_singleton.mp new)

theorem mem_launches_finishTests (app : App) (run : Run) (now : Int64) (launch : Launch)
    (member : launch ∈ (app.finishTests run now).launches) :
    launch ∈ app.launches ∨
      launch.run = run ∧ launch.record.results = run.results ∧
        launch.record.score = doubleToInt (weightedScore (app.shown run.owner)) ∧
        launch.shown = app.shown run.owner := by
  rcases List.mem_append.mp member with old | new
  · exact Or.inl old
  · rw [List.mem_singleton] at new
    subst new
    exact Or.inr ⟨rfl, rfl, rfl, rfl⟩

/-! ## Blocks over a step -/

section Blocks

variable {json : OrgJson} {app next : App} {action : NativeStep}

/-- How a block comes to stand in its loop: it was just taken from the queue, or
one iteration was skipped or executed. -/
theorem testing_native (taken : NativeTaken json app action next) (run : Run)
    (remaining : List TestCase) (position : next.current = some (run, .testing remaining)) :
    (action = .dequeue ∧ (∃ rest, app.queue = run :: rest) ∧ remaining = TestCase.entries) ∨
      (∃ testCase, app.current = some (run, .testing (testCase :: remaining)) ∧
        (app.viewModels run.owner).forceStop = true ∧ next.world = app.world) ∨
      ∃ before testCase outcome,
        app.current = some (before, .testing (testCase :: remaining)) ∧
        (app.viewModels before.owner).forceStop = false ∧
        next.world = (app.world.runTest json ⟨before.owner, testCase⟩ outcome).1 ∧
        run = { before with
          results := before.results.recordReturned testCase
            (app.world.runTest json ⟨before.owner, testCase⟩ outcome).2
          executed := before.executed ++
            [⟨testCase, outcome,
              (app.world.runTest json ⟨before.owner, testCase⟩ outcome).2⟩] } := by
  cases taken with
  | dequeue first rest idle queued =>
      cases position
      exact Or.inl ⟨rfl, ⟨rest, queued⟩, rfl⟩
  | skip before testCase _ outcome current stopped =>
      cases position
      exact Or.inr (Or.inl ⟨testCase, current, stopped, rfl⟩)
  | test before testCase _ outcome current unstopped =>
      cases position
      exact Or.inr (Or.inr ⟨before, testCase, outcome, current, unstopped, rfl, rfl⟩)
  | score => cases position
  | resetForceStop => cases position
  | resetRunning => cases position

variable {P : Run → Prop}

theorem queued_onTestStart (owner : Nat) (fresh : P { owner }) (queued : ∀ run ∈ app.queue, P run) :
    ∀ run ∈ (app.onTestStart owner).queue, P run := by
  intro run member
  rcases mem_queue_onTestStart app owner run member with old | rfl
  · exact queued run old
  · exact fresh

theorem queued_onTestStop (owner : Nat) (noted : ∀ run, P run → P (noteStop owner run))
    (queued : ∀ run ∈ app.queue, P run) : ∀ run ∈ (app.onTestStop owner).queue, P run := by
  intro run member
  obtain ⟨before, old, rfl⟩ := List.mem_map.mp member
  exact noted before (queued before old)

theorem queued_native (taken : NativeTaken json app action next)
    (queued : ∀ run ∈ app.queue, P run) : ∀ run ∈ next.queue, P run := by
  cases taken with
  | dequeue run rest idle front =>
      rw [front, List.forall_mem_cons] at queued
      exact queued.2
  | skip => exact queued
  | test => exact queued
  | score => exact queued
  | resetForceStop => exact queued
  | resetRunning => exact queued

/-- A record is handed over by the score step of its block and by no other. -/
theorem mem_launches_native (taken : NativeTaken json app action next) (launch : Launch)
    (member : launch ∈ next.launches) :
    launch ∈ app.launches ∨
      ∃ run now, action = .score now ∧ app.current = some (run, .testing []) ∧
        launch.run = run ∧ launch.record.results = run.results ∧
        launch.record.score = doubleToInt (weightedScore (app.shown run.owner)) ∧
        launch.shown = app.shown run.owner := by
  cases taken with
  | score run now position =>
      rcases mem_launches_finishTests app run now launch member with old | new
      · exact Or.inl old
      · exact Or.inr ⟨run, now, rfl, position, new⟩
  | dequeue => exact Or.inl member
  | skip => exact Or.inl member
  | test => exact Or.inl member
  | resetForceStop => exact Or.inl member
  | resetRunning => exact Or.inl member

end Blocks

end App

end RaptorMark
