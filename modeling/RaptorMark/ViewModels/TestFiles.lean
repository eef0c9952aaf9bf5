import RaptorMark.ViewModels.InformationalOutput
import RaptorMark.ViewModels.ListenerIsolation

/-!
# The files of the tests

`runTest` deletes the file of its test after the native call.  The deletion is
not in a `finally`: when the native call throws, whatever fio has laid out at
`filePath` stays, and no later step of the view model removes it before the
same test runs again.
-/

set_option autoImplicit false

namespace RaptorMark

open Lib Lib.Kotlin Lib.Transition

namespace World

variable (json : OrgJson)

/-- The native call ends with a code, and neither the test's own listener nor
one that is still registered throws on the way. -/
def CallReturns (world : World) (ref : TestRef) (outcome : NativeOutcome) : Prop :=
  (∃ code, outcome.ending = .returned code) ∧
    ParsesEach json none outcome.messages ∧ world.OthersParse json ref outcome.messages

theorem runTest_ok_iff (world : World) (ref : TestRef) (outcome : NativeOutcome) :
    (∃ result, (world.runTest json ref outcome).2 = .ok result) ↔
      world.CallReturns json ref outcome := by
  constructor
  · rintro ⟨result, returned⟩
    have ended : ∃ code, outcome.ending = .returned code := by
      rcases runTest_cases json world ref outcome with ⟨exception, run⟩ | ⟨code, call, _⟩
      · rw [run] at returned
        cases returned
      · exact ⟨code, ((nativeTest_ok_iff json _ outcome code).mp call).2⟩
    obtain ⟨code, ended⟩ := ended
    exact ⟨⟨code, ended⟩,
      (runTest_returns_iff json world ref outcome code ended).mp ⟨result, returned⟩⟩
  · rintro ⟨⟨code, ended⟩, parses⟩
    exact (runTest_returns_iff json world ref outcome code ended).mpr parses

/-- What is on disk after `runTest`: what the native call left, less the test's
own file if the call returned. -/
theorem mem_runTest_files (world : World) (ref : TestRef) (outcome : NativeOutcome)
    (path : String) :
    path ∈ (world.runTest json ref outcome).1.files ↔
      path ∈ outcome.files world.files ∧
        (world.CallReturns json ref outcome → path ≠ (world.tests ref).filePath) := by
  have left : ((world.enterNative ref).nativeTest json outcome).1.files =
      outcome.files world.files := nativeTest_files json _ outcome
  have owned : (((world.enterNative ref).nativeTest json outcome).1.tests ref).filePath =
      (world.tests ref).filePath := by
    rw [nativeTest_tests, deliver_filePath, enterNative_filePath]
  have returns := runTest_ok_iff json world ref outcome
  rcases runTest_cases json world ref outcome with ⟨exception, run⟩ | ⟨code, _, run⟩
  · have threw : ¬world.CallReturns json ref outcome := by
      rw [← returns, run]
      rintro ⟨result, returned⟩
      cases returned
    rw [run, left]
    exact ⟨fun member => ⟨member, fun returned => absurd returned threw⟩, And.left⟩
  · have returned : world.CallReturns json ref outcome := by
      rw [← returns, run]
      exact ⟨_, rfl⟩
    rw [run]
    simp only [deleteTestFile, unregisterListener, Finset.mem_erase, left, owned]
    exact ⟨fun kept => ⟨kept.2, fun _ => kept.1⟩, fun kept => ⟨kept.2 returned, kept.1⟩⟩

theorem runTest_removes_file_iff (world : World) (ref : TestRef) (outcome : NativeOutcome) :
    (world.tests ref).filePath ∉ (world.runTest json ref outcome).1.files ↔
      world.CallReturns json ref outcome ∨
        (world.tests ref).filePath ∉ outcome.files world.files := by
  rw [mem_runTest_files, not_and_or, or_comm]
  apply or_congr _ Iff.rfl
  constructor
  · intro kept
    by_contra threw
    exact kept fun returned => absurd returned threw
  · exact fun returned differs => differs returned rfl

end World

namespace App

variable (json : OrgJson)

/-- No test of any view model has a file on disk. -/
def NoTestFile (app : App) : Prop :=
  ∀ ref, (app.world.tests ref).filePath ∉ app.world.files

/-- A native call that leaves the file of a test leaves no other test's file
than its own, and it returns. -/
def Tidy (app : App) : Event → Prop
  | .native (.test outcome) => ∀ ref ∈ app.nextTest, ∀ other,
      (app.world.tests other).filePath ∈ outcome.files app.world.files →
        app.world.CallReturns json ref outcome ∧
          (app.world.tests other).filePath = (app.world.tests ref).filePath
  | _ => True

/-- The test step decides: the other steps touch neither the disk nor the tests. -/
theorem noTestFile_step (app next : App) (event : Event) (clean : app.NoTestFile)
    (taken : app.step json event = some next) : Tidy json app event ↔ next.NoTestFile := by
  rcases step_world json app next event taken with
    ⟨world, idle⟩ | ⟨ref, outcome, rfl, entered, world⟩
  · have quiet : Tidy json app event := by
      unfold Tidy
      split
      · intro ref entered
        rw [idle _ rfl] at entered
        cases entered
      · trivial
    have same : next.NoTestFile ↔ app.NoTestFile := by
      unfold NoTestFile
      rw [world]
    rw [same]
    exact ⟨fun _ => clean, fun _ => quiet⟩
  · simp only [Tidy, NoTestFile, world, entered, Option.mem_some_iff, forall_eq',
      World.runTest_filePath, World.mem_runTest_files]
    apply forall_congr'
    intro other
    constructor
    · rintro tidy ⟨left, kept⟩
      obtain ⟨returned, own⟩ := tidy left
      exact kept returned own
    · intro gone left
      by_contra untidy
      exact gone ⟨left, fun returned own => untidy ⟨returned, own⟩⟩

/-- After a call of `runTest` the test's file is gone exactly if the call
returned or had left no such file; and a whole run of the app never has a test
file on disk between two steps exactly if none was there at its start and every
native call that leaves one leaves its own and returns. -/
theorem no_test_file_left_iff (filePath : TestRef → String) (files : Finset String) :
    (∀ (world : World) (ref : TestRef) (outcome : NativeOutcome),
      (world.tests ref).filePath ∉ (world.runTest json ref outcome).1.files ↔
        world.CallReturns json ref outcome ∨
          (world.tests ref).filePath ∉ outcome.files world.files) ∧
    (∀ events, Throughout (step json) NoTestFile (start filePath files) events ↔
      NoTestFile (start filePath files) ∧
        Along (step json) (Tidy json) (start filePath files) events) := by
  refine ⟨World.runTest_removes_file_iff json, fun events => ?_⟩
  have exact (clean : NoTestFile (start filePath files)) :=
    throughout_iff_along (step json) (fun _ => True) (fun _ _ _ _ _ => trivial)
      (fun app event next _ => noTestFile_step json app next event)
      events (start filePath files) trivial clean
  constructor
  · intro throughout
    have clean : NoTestFile (start filePath files) := by
      cases events with
      | nil => exact throughout
      | cons _ _ => exact throughout.1
    exact ⟨clean, (exact clean).mp throughout⟩
  · rintro ⟨clean, along⟩
    exact (exact clean).mpr along

/-- fio fills the disk while it lays out the file, and says so; the line does not
parse. -/
def laidOutOutcome : NativeOutcome :=
  ⟨[⟨noticeLine, .stored⟩], .returned 8, insert "/data/Q8T8_SEQ_RD"⟩

/-- The listener throws, `runTest` throws, and the file that was laid out is
still there when the block goes on with its next test. -/
theorem thrown_test_leaves_file :
    sampleStart.NoTestFile ∧
      ∃ app,
        runEvents (step sampleJson) sampleStart
          [.onTestStart 0, .native .dequeue, .native (.test laidOutOutcome)] = some app ∧
        app.nextTest = some ⟨0, .q8t8SeqWr⟩ ∧
        (app.world.tests ⟨0, .q8t8SeqRd⟩).filePath ∈ app.world.files ∧
        ¬app.NoTestFile := by
  refine ⟨fun ref => by simp [sampleStart, start], ?_⟩
  have evaluated : (runEvents (step sampleJson) sampleStart
      [.onTestStart 0, .native .dequeue, .native (.test laidOutOutcome)]).map (fun app =>
        (app.nextTest,
          decide ((app.world.tests ⟨0, .q8t8SeqRd⟩).filePath ∈ app.world.files))) =
      some (some ⟨0, .q8t8SeqWr⟩, true) := by
    decide +kernel
  obtain ⟨app, run, facts⟩ := Option.map_eq_some_iff.mp evaluated
  simp only [Prod.mk.injEq, decide_eq_true_eq] at facts
  exact ⟨app, run, facts.1, facts.2, fun clean => clean _ facts.2⟩

end App

end RaptorMark
