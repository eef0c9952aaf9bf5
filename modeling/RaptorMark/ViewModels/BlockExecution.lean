import RaptorMark.ViewModels.RecordedResults

/-!
# One block from start to end

The block that `onTestStart` posts, executed to its end from any state of the
app: any test objects, any registered listeners, any flag.  Before each step of
the native thread the UI thread may make any calls.  The block always reaches
its end, and its record holds exactly the messages of its own native calls.
-/

set_option autoImplicit false

namespace RaptorMark

open Lib Lib.Kotlin Lib.Transition

/-- A call of the UI thread. -/
inductive UiCall where
  | onTestStart (owner : Nat)
  | onTestStop (owner : Nat)

def UiCall.toEvent : UiCall → Event
  | .onTestStart owner => .onTestStart owner
  | .onTestStop owner => .onTestStop owner

def interleaved (calls : List UiCall) (action : NativeStep) : List Event :=
  calls.map UiCall.toEvent ++ [.native action]

/-- What the environment does while one block runs: the calls made before each
step of the native thread and the outcome of each native call. -/
structure BlockSchedule where
  tests : List (List UiCall × NativeOutcome)
  covers : tests.length = TestCase.entries.length
  beforeScore : List UiCall
  now : Int64
  beforeStopReset : List UiCall
  beforeDone : List UiCall

def BlockSchedule.testEvents (tests : List (List UiCall × NativeOutcome)) : List Event :=
  tests.flatMap fun test => interleaved test.1 (.test test.2)

def BlockSchedule.events (schedule : BlockSchedule) : List Event :=
  .native .dequeue :: (testEvents schedule.tests ++
    (interleaved schedule.beforeScore (.score schedule.now) ++
      (interleaved schedule.beforeStopReset .resetForceStop ++
        interleaved schedule.beforeDone .resetRunning)))

namespace TestRun

def input (test : TestRun) : TestCase × NativeOutcome := (test.testCase, test.outcome)

/-- `runTest` returned normally after at least one message, and `raw` is those
messages joined. -/
def Delivered (test : TestRun) (raw : String) : Prop :=
  (∃ result, test.returned = .ok result) ∧ test.outcome.messages ≠ [] ∧
    raw = lineSeparator.intercalate test.outcome.messages

end TestRun

namespace App

variable (json : OrgJson)

/-- `noted` is the same block up to the stop-request history. -/
structure SameBlock (run noted : Run) : Prop where
  owner : noted.owner = run.owner
  results : noted.results = run.results
  executed : noted.executed = run.executed

theorem SameBlock.refl (run : Run) : SameBlock run run := ⟨rfl, rfl, rfl⟩

theorem SameBlock.trans {first second third : Run} (left : SameBlock first second)
    (right : SameBlock second third) : SameBlock first third :=
  ⟨right.owner.trans left.owner, right.results.trans left.results,
    right.executed.trans left.executed⟩

theorem noteStopCurrent_same (owner : Nat) (run : Run) (phase : Phase) :
    ∃ noted, noteStopCurrent owner (run, phase) = (noted, phase) ∧ SameBlock run noted := by
  cases phase with
  | testing remaining =>
      cases remaining with
      | nil => exact ⟨run, rfl, .refl run⟩
      | cons testCase rest =>
          exact ⟨noteStop owner run, rfl, noteStop_owner owner run, noteStop_results owner run,
            noteStop_executed owner run⟩
  | launched score => exact ⟨run, rfl, .refl run⟩
  | stopReset score => exact ⟨run, rfl, .refl run⟩

/-- What calls of the UI thread leave alone while a block is executing.  They
can raise a stop flag, never lower one. -/
structure Undisturbed (run : Run) (phase : Phase) (app next : App) : Prop where
  position : ∃ noted, next.current = some (noted, phase) ∧ SameBlock run noted
  world : next.world = app.world
  launches : next.launches = app.launches
  unstopped : ∀ owner, (next.viewModels owner).forceStop = false →
    (app.viewModels owner).forceStop = false

theorem uiCall_undisturbed (app : App) (run : Run) (phase : Phase)
    (position : app.current = some (run, phase)) (call : UiCall) :
    ∃ next, app.step json call.toEvent = some next ∧ Undisturbed run phase app next := by
  cases call with
  | onTestStart owner =>
      refine ⟨app.onTestStart owner, rfl, ⟨run, position, .refl run⟩, rfl, rfl, ?_⟩
      intro other unstopped
      by_cases same : other = owner
      · subst same
        simpa [onTestStart, setViewModel] using unstopped
      · simpa [onTestStart, setViewModel, same] using unstopped
  | onTestStop owner =>
      obtain ⟨noted, noting, same⟩ := noteStopCurrent_same owner run phase
      refine ⟨app.onTestStop owner, rfl, ⟨noted, ?_, same⟩, rfl, rfl, ?_⟩
      · simp [onTestStop, position, noting]
      · intro other unstopped
        by_cases isOwner : other = owner
        · subst isOwner
          simp [onTestStop, setViewModel] at unstopped
        · simpa [onTestStop, setViewModel, isOwner] using unstopped

theorem uiCalls_undisturbed (calls : List UiCall) (app : App) (run : Run) (phase : Phase)
    (position : app.current = some (run, phase)) :
    ∃ next, runEvents (step json) app (calls.map UiCall.toEvent) = some next ∧
      Undisturbed run phase app next := by
  induction calls generalizing app run with
  | nil => exact ⟨app, rfl, ⟨run, position, .refl run⟩, rfl, rfl, fun _ unstopped => unstopped⟩
  | cons call rest ih =>
      obtain ⟨middle, taken, first⟩ := uiCall_undisturbed json app run phase position call
      obtain ⟨noted, middlePosition, same⟩ := first.position
      obtain ⟨next, restRun, later⟩ := ih middle noted middlePosition
      obtain ⟨final, finalPosition, finalSame⟩ := later.position
      refine ⟨next, ?_, ⟨final, finalPosition, same.trans finalSame⟩,
        later.world.trans first.world, later.launches.trans first.launches,
        fun owner unstopped => first.unstopped owner (later.unstopped owner unstopped)⟩
      simp [runEvents, taken, restRun]

/-- Calls and then one native step: the step is taken in an undisturbed state. -/
theorem interleaved_run (calls : List UiCall) (action : NativeStep) (app : App) (run : Run)
    (phase : Phase) (position : app.current = some (run, phase)) :
    ∃ middle, Undisturbed run phase app middle ∧
      runEvents (step json) app (interleaved calls action) = middle.nativeStep json action := by
  obtain ⟨middle, callsRun, undisturbed⟩ := uiCalls_undisturbed json calls app run phase position
  refine ⟨middle, undisturbed, ?_⟩
  rw [interleaved, runEvents_append, callsRun]
  cases taken : middle.nativeStep json action <;> simp [runEvents, step, taken]

/-! ## The loop over the test items -/

/-- Where a block stands, `whole` being all its iterations and `remaining` those
to come.  Until a stop is seen nothing is missing. -/
structure BlockProgress (whole : List (TestCase × NativeOutcome)) (stopped : Bool) (run : Run)
    (remaining : List (TestCase × NativeOutcome)) : Prop where
  executedFirst : run.executed.map TestRun.input <+: whole
  complete : stopped = false → run.executed.map TestRun.input ++ remaining = whole
  distinct : (run.executed.map TestRun.testCase ++ remaining.map Prod.fst).Nodup
  results : ∀ testCase raw, run.results testCase = some raw ↔
    ∃ test ∈ run.executed, test.testCase = testCase ∧ test.Delivered raw

theorem BlockProgress.undisturbed {whole remaining : List (TestCase × NativeOutcome)}
    {run noted : Run} {before after : Bool} (progress : BlockProgress whole before run remaining)
    (same : SameBlock run noted) (unstopped : after = false → before = false) :
    BlockProgress whole after noted remaining := by
  refine ⟨?_, ?_, ?_, ?_⟩
  · rw [same.executed]
    exact progress.executedFirst
  · intro running
    rw [same.executed]
    exact progress.complete (unstopped running)
  · rw [same.executed]
    exact progress.distinct
  · rw [same.executed, same.results]
    exact progress.results

theorem BlockProgress.skip {whole remaining : List (TestCase × NativeOutcome)} {run : Run}
    {next : TestCase × NativeOutcome}
    (progress : BlockProgress whole true run (next :: remaining)) :
    BlockProgress whole true run remaining := by
  refine ⟨progress.executedFirst, (nomatch ·), ?_, progress.results⟩
  refine progress.distinct.sublist (List.Sublist.append_left ?_ _)
  exact (List.sublist_cons_self next remaining).map Prod.fst

/-- A test's history entry counts as delivered exactly if `runTest` returned a
text, and then it is that text. -/
theorem delivered_iff (world : World) (owner : Nat) (testCase : TestCase)
    (outcome : NativeOutcome) (raw : String) :
    TestRun.Delivered ⟨testCase, outcome, (world.runTest json ⟨owner, testCase⟩ outcome).2⟩ raw ↔
      (world.runTest json ⟨owner, testCase⟩ outcome).2 = .ok (some raw) := by
  constructor
  · rintro ⟨⟨result, returned⟩, nonempty, joined⟩
    have text := (World.runTest_ok json world _ outcome result returned).2.1
    rw [World.accumulate_none, if_neg nonempty] at text
    dsimp only at returned joined
    rw [returned, text, joined]
  · intro returned
    have text := (World.runTest_ok json world _ outcome _ returned).2.1
    rw [World.accumulate_none] at text
    split at text
    · cases text
    · rename_i nonempty
      exact ⟨⟨_, returned⟩, nonempty, Option.some.inj text⟩

theorem BlockProgress.test {whole remaining : List (TestCase × NativeOutcome)} {run : Run}
    {testCase : TestCase} {outcome : NativeOutcome} (world : World)
    (progress : BlockProgress whole false run ((testCase, outcome) :: remaining)) :
    BlockProgress whole false
      { run with
        results := run.results.recordReturned testCase
          (world.runTest json ⟨run.owner, testCase⟩ outcome).2
        executed := run.executed ++
          [⟨testCase, outcome, (world.runTest json ⟨run.owner, testCase⟩ outcome).2⟩] }
      remaining := by
  have complete := progress.complete rfl
  have notYet : testCase ∉ run.executed.map TestRun.testCase := by
    intro member
    exact (List.nodup_append.mp progress.distinct).2.2 testCase member testCase (by simp) rfl
  have fresh : run.results testCase = none := by
    cases entry : run.results testCase with
    | none => rfl
    | some raw =>
        obtain ⟨test, member, same, _⟩ := (progress.results testCase raw).mp entry
        exact absurd (List.mem_map.mpr ⟨test, member, same⟩) notYet
  refine ⟨?_, ?_, ?_, ?_⟩
  · refine ⟨remaining, ?_⟩
    rw [← complete]
    simp [TestRun.input]
  · intro _
    rw [← complete]
    simp [TestRun.input]
  · have distinct := progress.distinct
    simpa [List.append_assoc] using distinct
  · intro other raw
    rw [recordReturned_iff _ _ _ _ _ fresh, progress.results other raw]
    simp only [List.mem_append, List.mem_singleton]
    constructor
    · rintro (⟨rfl, returned⟩ | ⟨test, member, same⟩)
      · exact ⟨_, Or.inr rfl, rfl,
          (delivered_iff json world run.owner other outcome raw).mpr returned⟩
      · exact ⟨test, Or.inl member, same⟩
    · rintro ⟨test, member | rfl, same, delivered⟩
      · exact Or.inr ⟨test, member, same, delivered⟩
      · exact Or.inl ⟨same.symm,
          (delivered_iff json world run.owner testCase outcome raw).mp delivered⟩

/-- One iteration: the calls made before it, then the step of the loop. -/
theorem testStep_run (whole remaining : List (TestCase × NativeOutcome)) (testCase : TestCase)
    (later : List TestCase) (calls : List UiCall) (outcome : NativeOutcome) (app : App) (run : Run)
    (position : app.current = some (run, .testing (testCase :: later)))
    (progress : BlockProgress whole (app.viewModels run.owner).forceStop run
      ((testCase, outcome) :: remaining)) :
    ∃ next after,
      runEvents (step json) app (interleaved calls (.test outcome)) = some next ∧
      next.current = some (after, .testing later) ∧ after.owner = run.owner ∧
      next.launches = app.launches ∧
      BlockProgress whole (next.viewModels after.owner).forceStop after remaining := by
  obtain ⟨middle, undisturbed, stepRun⟩ :=
    interleaved_run json calls (.test outcome) app run _ position
  obtain ⟨noted, middlePosition, same⟩ := undisturbed.position
  have middleProgress : BlockProgress whole (middle.viewModels noted.owner).forceStop noted
      ((testCase, outcome) :: remaining) := by
    apply progress.undisturbed same
    rw [same.owner]
    exact undisturbed.unstopped run.owner
  have taken : middle.nativeStep json (.test outcome) =
      some (middle.forEachBody json noted testCase later outcome) := by
    simp [nativeStep, middlePosition]
  rw [stepRun, taken]
  cases flag : (middle.viewModels noted.owner).forceStop with
  | true =>
      have skipped : middle.forEachBody json noted testCase later outcome =
          { middle with current := some (noted, .testing later) } := by
        simp [forEachBody, flag]
      rw [flag] at middleProgress
      rw [skipped]
      refine ⟨_, _, rfl, rfl, same.owner, undisturbed.launches, ?_⟩
      rw [flag]
      exact middleProgress.skip
  | false =>
      have executed : middle.forEachBody json noted testCase later outcome =
          { middle with
            world := (middle.world.runTest json ⟨noted.owner, testCase⟩ outcome).1
            current := some ({ noted with
                results := noted.results.recordReturned testCase
                  (middle.world.runTest json ⟨noted.owner, testCase⟩ outcome).2
                executed := noted.executed ++ [⟨testCase, outcome,
                  (middle.world.runTest json ⟨noted.owner, testCase⟩ outcome).2⟩] },
              .testing later) } := by
        simp [forEachBody, flag]
      rw [flag] at middleProgress
      rw [executed]
      refine ⟨_, _, rfl, rfl, same.owner, undisturbed.launches, ?_⟩
      rw [flag]
      exact BlockProgress.test json middle.world middleProgress

/-- Every iteration can be taken, and the loop ends with nothing remaining.
The induction is on the iterations to come. -/
theorem testEvents_run (whole : List (TestCase × NativeOutcome)) (remaining : List TestCase)
    (tests : List (List UiCall × NativeOutcome)) (app : App) (run : Run)
    (position : app.current = some (run, .testing remaining))
    (covers : tests.length = remaining.length)
    (progress : BlockProgress whole (app.viewModels run.owner).forceStop run
      (remaining.zip (tests.map Prod.snd))) :
    ∃ next finished stopped,
      runEvents (step json) app (BlockSchedule.testEvents tests) = some next ∧
      next.current = some (finished, .testing []) ∧ finished.owner = run.owner ∧
      next.launches = app.launches ∧ BlockProgress whole stopped finished [] := by
  induction tests generalizing app run remaining with
  | nil =>
      cases remaining with
      | nil => exact ⟨app, run, _, rfl, position, rfl, rfl, progress⟩
      | cons testCase rest => simp at covers
  | cons test rest ih =>
      cases remaining with
      | nil => simp at covers
      | cons testCase later =>
          have restCovers : rest.length = later.length := by simpa using covers
          obtain ⟨middle, after, first, middlePosition, owner, launches, middleProgress⟩ :=
            testStep_run json whole _ testCase later test.1 test.2 app run position progress
          obtain ⟨next, finished, stopped, restRun, ended, sameOwner, sameLaunches, final⟩ :=
            ih later middle after middlePosition restCovers middleProgress
          refine ⟨next, finished, stopped, ?_, ended, sameOwner.trans owner,
            sameLaunches.trans launches, final⟩
          rw [BlockSchedule.testEvents, List.flatMap_cons, runEvents_append, first,
            Option.bind_some]
          exact restRun

/-- The two writes that end a block: the flag and the state. -/
theorem resets_run (beforeStopReset beforeDone : List UiCall) (app : App) (run : Run)
    (score : Int32) (position : app.current = some (run, .launched score)) :
    ∃ final,
      runEvents (step json) app
        (interleaved beforeStopReset .resetForceStop ++ interleaved beforeDone .resetRunning) =
          some final ∧
      final.current = none ∧ final.launches = app.launches ∧ final.world = app.world ∧
      (final.viewModels run.owner).benchmarkState = ⟨false, score⟩ := by
  obtain ⟨resetting, resetCalm, resetRun⟩ :=
    interleaved_run json beforeStopReset .resetForceStop app run _ position
  obtain ⟨reset, resetPosition, resetSame⟩ := resetCalm.position
  obtain ⟨ending, endCalm, endRun⟩ :=
    interleaved_run json beforeDone .resetRunning
      { resetting.setViewModel reset.owner
          { resetting.viewModels reset.owner with forceStop := false } with
        current := some (reset, .stopReset score) }
      reset _ rfl
  obtain ⟨ended, endPosition, endSame⟩ := endCalm.position
  have owner : ended.owner = run.owner := endSame.owner.trans resetSame.owner
  refine ⟨
    { ending.setViewModel ended.owner
        { ending.viewModels ended.owner with benchmarkState := ⟨false, score⟩ } with
      current := none },
    ?_, rfl, endCalm.launches.trans resetCalm.launches, endCalm.world.trans resetCalm.world, ?_⟩
  · rw [runEvents_append, resetRun]
    simp only [nativeStep, resetPosition, Option.bind_some]
    rw [endRun]
    simp only [nativeStep, endPosition]
  · simp [setViewModel, owner]

/-- The three steps after the loop: the record, the flag, the state. -/
theorem blockEnd_run (schedule : BlockSchedule) (app : App) (run : Run)
    (position : app.current = some (run, .testing [])) :
    ∃ final launch,
      runEvents (step json) app
        (interleaved schedule.beforeScore (.score schedule.now) ++
          (interleaved schedule.beforeStopReset .resetForceStop ++
            interleaved schedule.beforeDone .resetRunning)) = some final ∧
      final.current = none ∧ final.launches = app.launches ++ [launch] ∧
      (final.viewModels run.owner).benchmarkState = ⟨false, launch.record.score⟩ ∧
      launch.record.score = doubleToInt (weightedScore (final.shown run.owner)) ∧
      launch.record.results = run.results ∧ SameBlock run launch.run := by
  obtain ⟨scoring, calm, scoreRun⟩ :=
    interleaved_run json schedule.beforeScore (.score schedule.now) app run _ position
  obtain ⟨scored, scoredPosition, same⟩ := calm.position
  have taken : scoring.nativeStep json (.score schedule.now) =
      some (scoring.finishTests scored schedule.now) := by
    simp [nativeStep, scoredPosition]
  obtain ⟨final, resetsRun, ended, launches, world, state⟩ :=
    resets_run json schedule.beforeStopReset schedule.beforeDone
      (scoring.finishTests scored schedule.now) scored _ rfl
  have shown : scoring.shown scored.owner = final.shown run.owner := by
    unfold App.shown
    rw [world, same.owner]
    rfl
  refine ⟨final,
    { record :=
        { timestamp := schedule.now
          score := doubleToInt (weightedScore (scoring.shown scored.owner))
          results := scored.results }
      run := scored
      shown := scoring.shown scored.owner },
    ?_, ended, ?_, ?_, ?_, same.results, same⟩
  · rw [runEvents_append, scoreRun, taken, Option.bind_some, resetsRun]
  · rw [launches, ← calm.launches]
    rfl
  · rw [← same.owner]
    exact state
  · dsimp only
    rw [shown]

/-- From any state of the app a posted block reaches its end: `running` is
false, the shown score is the one computed from the test items, exactly one
insertion was launched, the executed test cases are a prefix of the entries, and
the record has an entry for a test case exactly if its own native call in this
block returned after at least one message, the entry being those messages. -/
theorem posted_block_completes (app : App) (run : Run) (rest : List Run)
    (idle : app.current = none) (posted : app.queue = run :: rest)
    (noResults : run.results = fun _ => none) (noTests : run.executed = [])
    (schedule : BlockSchedule) :
    ∃ final launch,
      runEvents (step json) app schedule.events = some final ∧
      final.current = none ∧
      (final.viewModels run.owner).benchmarkState = ⟨false, launch.record.score⟩ ∧
      launch.record.score = doubleToInt (weightedScore (final.shown run.owner)) ∧
      final.launches = app.launches ++ [launch] ∧
      launch.run.executed.map TestRun.testCase <+: TestCase.entries ∧
      launch.run.executed.map TestRun.outcome <+: schedule.tests.map Prod.snd ∧
      ∀ testCase raw, launch.record.results testCase = some raw ↔
        ∃ test ∈ launch.run.executed, test.testCase = testCase ∧ test.Delivered raw := by
  have lengths : TestCase.entries.length = (schedule.tests.map Prod.snd).length := by
    rw [List.length_map, schedule.covers]
  have dequeued : app.step json (.native .dequeue) =
      some { app with queue := rest, current := some (run, .testing TestCase.entries) } := by
    simp [step, nativeStep, idle, posted]
  have beginning : BlockProgress (TestCase.entries.zip (schedule.tests.map Prod.snd))
      (app.viewModels run.owner).forceStop run
      (TestCase.entries.zip (schedule.tests.map Prod.snd)) := by
    refine ⟨?_, ?_, ?_, ?_⟩
    · simp [noTests]
    · simp [noTests]
    · rw [List.map_fst_zip lengths.le, noTests]
      exact TestCase.entries_nodup
    · simp [noTests, noResults]
  obtain ⟨tested, finished, stopped, testsRun, testedPosition, owner, testedLaunches, progress⟩ :=
    testEvents_run json _ TestCase.entries schedule.tests
      { app with queue := rest, current := some (run, .testing TestCase.entries) } run rfl
      schedule.covers beginning
  obtain ⟨final, launch, endRun, ended, launches, state, score, results, same⟩ :=
    blockEnd_run json schedule tested finished testedPosition
  have executedFirst := progress.executedFirst
  rw [← same.executed] at executedFirst
  have testCases := executedFirst.map Prod.fst
  have outcomes := executedFirst.map Prod.snd
  rw [List.map_fst_zip lengths.le, List.map_map] at testCases
  rw [List.map_snd_zip lengths.ge, List.map_map] at outcomes
  rw [owner] at state score
  refine ⟨final, launch, ?_, ended, state, score, ?_, testCases, outcomes, ?_⟩
  · rw [BlockSchedule.events, runEvents, dequeued]
    change runEvents (step json) _ _ = _
    rw [runEvents_append, testsRun, Option.bind_some, endRun]
  · rw [launches, testedLaunches]
  · rw [results, same.executed]
    exact progress.results

/-- Three tests, then a stop request; a new run is started before the end. -/
def stoppingSchedule : BlockSchedule where
  tests := [([], silentOutcome), ([], silentOutcome), ([], reportOutcome),
    ([.onTestStop 0], silentOutcome)] ++ List.replicate 24 ([], silentOutcome)
  covers := by decide
  beforeScore := []
  now := 0
  beforeStopReset := [.onTestStart 0]
  beforeDone := []

/-- A block was posted while a listener of its second test is still registered. -/
def leftoverStart : App :=
  { sampleStart with
    world := sampleStart.world.registerListener ⟨0, .q8t8SeqWr⟩ }.onTestStart 0

theorem stoppingSchedule_completes :
    ∃ final launch,
      runEvents (step sampleJson) leftoverStart stoppingSchedule.events = some final ∧
      final.current = none ∧
      (final.viewModels 0).benchmarkState = ⟨false, launch.record.score⟩ ∧
      final.launches = leftoverStart.launches ++ [launch] ∧
      ∀ testCase raw, launch.record.results testCase = some raw ↔
        ∃ test ∈ launch.run.executed, test.testCase = testCase ∧ test.Delivered raw := by
  obtain ⟨final, launch, run, ended, state, _, launches, _, _, results⟩ :=
    posted_block_completes sampleJson leftoverStart { owner := 0 } [] rfl rfl rfl rfl
      stoppingSchedule
  exact ⟨final, launch, run, ended, state, launches, results⟩

end App

end RaptorMark
