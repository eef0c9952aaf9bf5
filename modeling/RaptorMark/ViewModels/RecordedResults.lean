import RaptorMark.ViewModels.BenchmarkViewModel

/-!
# Recorded results and what the screen showed

A result enters a record only when its native call returned normally, so the
last text its listener parsed is the text that is stored.  The listener has
been removed by then and is registered again by its own next run only; a
message of a later test therefore cannot change the result that was recorded,
whatever listeners earlier failures left behind.
-/

set_option autoImplicit false

namespace RaptorMark.App

open Lib Lib.Kotlin Lib.Transition

variable (json : OrgJson)

/-! ## History fields leave the rest of a block alone -/

@[simp] theorem noteStop_owner (owner : Nat) (run : Run) :
    (noteStop owner run).owner = run.owner := by
  unfold noteStop
  split <;> rfl

@[simp] theorem noteStop_results (owner : Nat) (run : Run) :
    (noteStop owner run).results = run.results := by
  unfold noteStop
  split <;> rfl

@[simp] theorem noteStop_executed (owner : Nat) (run : Run) :
    (noteStop owner run).executed = run.executed := by
  unfold noteStop
  split <;> rfl

theorem onTestStop_current_testing (app : App) (owner : Nat) (run : Run)
    (remaining : List TestCase)
    (position : (app.onTestStop owner).current = some (run, .testing remaining)) :
    ∃ before, app.current = some (before, .testing remaining) ∧
      (run = before ∨ run = noteStop owner before) := by
  obtain ⟨⟨before, phase⟩, current, noted⟩ := Option.map_eq_some_iff.mp position
  unfold noteStopCurrent at noted
  split at noted
  · rename_i same
    cases same
    cases noted
    exact ⟨_, current, Or.inr rfl⟩
  · cases noted
    exact ⟨_, current, Or.inl rfl⟩

/-! ## The invariant -/

/-- Every recorded result is out of reach of later messages and is the text
behind the result its test item shows. -/
def RunRecorded (world : World) (run : Run) (remaining : List TestCase) : Prop :=
  ∀ testCase raw, run.results testCase = some raw →
    testCase ∉ remaining ∧ (⟨run.owner, testCase⟩ : TestRef) ∉ world.listeners ∧
      parseResult json raw = .ok (world.tests ⟨run.owner, testCase⟩).testResult

structure RecordedInvariant (app : App) : Prop where
  queued : ∀ run ∈ app.queue, run.results = fun _ => none
  distinct : ∀ run remaining, app.current = some (run, .testing remaining) → remaining.Nodup
  recorded : ∀ run remaining, app.current = some (run, .testing remaining) →
    RunRecorded json app.world run remaining
  launched : ∀ launch ∈ app.launches, ∀ testCase raw,
    launch.record.results testCase = some raw →
      parseResult json raw = .ok (launch.shown testCase)

theorem recordReturned_iff (results : Results) (testCase other : TestCase)
    (returned : Except JavaException (Option String)) (raw : String)
    (fresh : results testCase = none) :
    results.recordReturned testCase returned other = some raw ↔
      (other = testCase ∧ returned = .ok (some raw)) ∨ results other = some raw := by
  unfold Results.recordReturned
  split
  · rename_i result
    by_cases same : other = testCase
    · subst same
      simp [Results.setResult, fresh]
    · simp [Results.setResult, same]
  · simp
  · simp

/-- One executed test: the new entry is right, the old ones are untouched. -/
theorem runRecorded_test (world : World) (run : Run) (testCase : TestCase)
    (remaining : List TestCase) (outcome : NativeOutcome) (executed : List TestRun)
    (distinct : (testCase :: remaining).Nodup)
    (before : RunRecorded json world run (testCase :: remaining)) :
    RunRecorded json (world.runTest json ⟨run.owner, testCase⟩ outcome).1
      { run with
        results := run.results.recordReturned testCase
          (world.runTest json ⟨run.owner, testCase⟩ outcome).2
        executed } remaining := by
  have fresh : run.results testCase = none := by
    cases entry : run.results testCase with
    | none => rfl
    | some raw => exact absurd (List.mem_cons_self ..) (before testCase raw entry).1
  intro other raw entry
  rcases (recordReturned_iff _ _ _ _ _ fresh).mp entry with ⟨rfl, returned⟩ | old
  · obtain ⟨gone, _, parsed⟩ := World.runTest_ok json world _ outcome _ returned
    exact ⟨(List.nodup_cons.mp distinct).1, gone, parsed raw rfl⟩
  · obtain ⟨passed, unheard, parsed⟩ := before other raw old
    rw [List.mem_cons, not_or] at passed
    have different : (⟨run.owner, other⟩ : TestRef) ≠ ⟨run.owner, testCase⟩ := by
      intro same
      exact passed.1 (congrArg TestRef.testCase same)
    refine ⟨passed.2, ?_, ?_⟩
    · intro heard
      rcases World.runTest_listeners_subset json world _ _ outcome heard with same | member
      · exact different same
      · exact unheard member
    · rw [World.runTest_other json world _ _ outcome different unheard]
      exact parsed

theorem recordedInvariant_nativeStep (app next : App) (action : NativeStep)
    (invariant : RecordedInvariant json app)
    (taken : NativeTaken json app action next) : RecordedInvariant json next where
  queued := queued_native taken invariant.queued
  distinct := by
    intro run remaining position
    rcases testing_native taken run remaining position with
      ⟨_, _, rfl⟩ | ⟨testCase, current, _⟩ | ⟨before, testCase, outcome, current, _⟩
    · exact TestCase.entries_nodup
    · exact (List.nodup_cons.mp (invariant.distinct run _ current)).2
    · exact (List.nodup_cons.mp (invariant.distinct before _ current)).2
  recorded := by
    intro run remaining position
    rcases testing_native taken run remaining position with
      ⟨_, ⟨rest, queued⟩, _⟩ | ⟨testCase, current, _, world⟩ |
        ⟨before, testCase, outcome, current, _, world, rfl⟩
    · intro recordedCase raw entry
      rw [invariant.queued run (by rw [queued]; exact List.mem_cons_self ..)] at entry
      cases entry
    · intro recordedCase raw entry
      obtain ⟨passed, kept⟩ := invariant.recorded run _ current recordedCase raw entry
      rw [world]
      exact ⟨fun member => passed (List.mem_cons_of_mem _ member), kept⟩
    · rw [world]
      exact runRecorded_test json app.world before testCase remaining outcome _
        (invariant.distinct before _ current) (invariant.recorded before _ current)
  launched := by
    intro launch member testCase raw entry
    rcases mem_launches_native taken launch member with
      old | ⟨run, _, _, position, _, results, _, shown⟩
    · exact invariant.launched launch old testCase raw entry
    · rw [results] at entry
      rw [shown]
      exact (invariant.recorded run [] position testCase raw entry).2.2

theorem recordedInvariant_step (app next : App) (event : Event)
    (invariant : RecordedInvariant json app) (taken : app.step json event = some next) :
    RecordedInvariant json next := by
  cases event with
  | onTestStart owner =>
      cases taken
      exact ⟨queued_onTestStart owner rfl invariant.queued, invariant.distinct,
        invariant.recorded, invariant.launched⟩
  | onTestStop owner =>
      cases taken
      refine ⟨?_, ?_, ?_, invariant.launched⟩
      · exact queued_onTestStop owner (fun run => (noteStop_results owner run).trans)
          invariant.queued
      · intro run remaining position
        obtain ⟨before, current, _⟩ := onTestStop_current_testing app owner run remaining position
        exact invariant.distinct before remaining current
      · intro run remaining position
        obtain ⟨before, current, same⟩ :=
          onTestStop_current_testing app owner run remaining position
        have kept := invariant.recorded before remaining current
        rcases same with rfl | rfl
        · exact kept
        · intro testCase raw entry
          rw [noteStop_results] at entry
          rw [noteStop_owner]
          exact kept testCase raw entry
  | native action =>
      exact recordedInvariant_nativeStep json app next action invariant
        (nativeStep_taken json app next action taken)

theorem recordedInvariant_start (filePath : TestRef → String) (files : Finset String) :
    RecordedInvariant json (start filePath files) where
  queued := by simp [start]
  distinct := by simp [start]
  recorded := by simp [start]
  launched := by simp [start]

theorem recordedInvariant_run (filePath : TestRef → String) (files : Finset String)
    (events : List Event) (app : App)
    (run : runEvents (step json) (start filePath files) events = some app) :
    RecordedInvariant json app :=
  runEvents_invariant (step json) (RecordedInvariant json) (fun _ _ => True)
    (fun before event next invariant _ taken =>
      recordedInvariant_step json before next event invariant taken)
    events _ app (recordedInvariant_start json filePath files)
    (along_of_forall (step json) (fun _ _ => trivial) events _) run

/-- Every stored text parses, to the result that its test item showed when the
record was created. -/
theorem launched_results_parse_as_shown (filePath : TestRef → String) (files : Finset String)
    (events : List Event) (app : App)
    (run : runEvents (step json) (start filePath files) events = some app)
    (launch : Launch) (member : launch ∈ app.launches) (testCase : TestCase) (raw : String)
    (entry : launch.record.results testCase = some raw) :
    parseResult json raw = .ok (launch.shown testCase) :=
  (recordedInvariant_run json filePath files events app run).launched launch member testCase raw
    entry

/-! ## A run cut short after its third test -/

/-- A report of one random-read job, and the tree `org.json` builds from it. -/
def sampleReport : String :=
  "\x7b\"jobs\":[\x7b\"jobname\":\"Q1T1_RAND_RD\",\"read\":\x7b\"bw_bytes\":32768000," ++
  "\"iops\":8000.0,\"clat_ns\":\x7b\"mean\":120000.0\x7d\x7d,\"write\":\x7b\"bw_bytes\":0," ++
  "\"iops\":0.0,\"clat_ns\":\x7b\"mean\":0.0\x7d\x7d\x7d]\x7d"

def sampleTree : JSONObject :=
  [("jobs", .array [.object
    [("jobname", .string "Q1T1_RAND_RD"),
     ("read", .object [("bw_bytes", .long 32768000), ("iops", .double 8000),
       ("clat_ns", .object [("mean", .double 120000)])]),
     ("write", .object [("bw_bytes", .long 0), ("iops", .double 0),
       ("clat_ns", .object [("mean", .double 0)])])]])]

def sampleJson : OrgJson where
  parse := fun text => if text = sampleReport then some sampleTree else none
  doubleOf := fun _ => none
  textOf := fun _ => ""

def silentOutcome : NativeOutcome := ⟨[], .returned 0, id⟩

def reportOutcome : NativeOutcome := ⟨[⟨sampleReport, .stored⟩], .returned 0, id⟩

/-- What fio sends before the report when the disk is full, whatever the format
of its output. -/
def noticeLine : String := "fio: ENOSPC on laying out file, stopping\n"

/-- A whole block whose first iterations end as given; a stop request before
the others skips them. -/
def stoppedRun (outcomes : List NativeOutcome) : List Event :=
  [.onTestStart 0, .native .dequeue] ++
    outcomes.map (fun outcome => .native (.test outcome)) ++ [.onTestStop 0] ++
    List.replicate (TestCase.entries.length - outcomes.length) (.native (.test silentOutcome)) ++
    [.native (.score 0), .native .resetForceStop, .native .resetRunning]

def sampleStart : App := start (fun ref => "/data/" ++ ref.testCase.name) ∅

theorem stoppedRun_result_parses_as_shown :
    ∃ app launch,
      runEvents (step sampleJson) sampleStart
        (stoppedRun [silentOutcome, silentOutcome, reportOutcome]) = some app ∧
      launch ∈ app.launches ∧ launch.record.results .q1t1RandRd = some sampleReport ∧
      parseResult sampleJson sampleReport = .ok (launch.shown .q1t1RandRd) := by
  have evaluated : (runEvents (step sampleJson) sampleStart
      (stoppedRun [silentOutcome, silentOutcome, reportOutcome])).map
        (fun app => app.launches.map fun launch => launch.record.results .q1t1RandRd) =
          some [some sampleReport] := by
    decide +kernel
  obtain ⟨app, run, results⟩ := Option.map_eq_some_iff.mp evaluated
  have stored : some sampleReport ∈
      app.launches.map fun launch => launch.record.results .q1t1RandRd := by
    rw [results]
    exact List.mem_singleton_self _
  obtain ⟨launch, member, entry⟩ := List.mem_map.mp stored
  exact ⟨app, launch, run, member, entry,
    launched_results_parse_as_shown sampleJson _ _ _ app run launch member _ _ entry⟩

end RaptorMark.App
