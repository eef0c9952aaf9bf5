import RaptorMark.Ui.BenchmarkContent

/-!
# A stop request and its run

The flag `forceStop` does not say which run it was raised for.  It is harmless
as long as somebody is there to take it: the executing block, which notes the
request or has its reset still ahead, or the block at the head of the queue,
which noted the request when it was made.  A stop click on a stale screen, made
after the last reset, raises the flag for the next run instead.
-/

set_option autoImplicit false

namespace RaptorMark.Screen

open Lib Lib.Kotlin Lib.Transition

variable (json : OrgJson) (viewModel : Nat)

/-- The write `forceStop = false` of some block is still to come. -/
def resetAhead (app : App) : Bool :=
  !app.queue.isEmpty ||
    match app.current with
    | some (_, .testing _) => true
    | some (_, .launched _) => true
    | _ => false

/-- A click that stops a run is made while a reset of the flag is ahead. -/
def StopsWhenPending (screen : Screen) : ScreenEvent → Prop
  | .click => screen.rendered = true → resetAhead screen.app = true
  | _ => True

instance decidableStopsWhenPending (screen : Screen) :
    ∀ event, Decidable (StopsWhenPending screen event)
  | .click => inferInstanceAs (Decidable (_ → _))
  | .render => isTrue trivial
  | .native _ => isTrue trivial

/-- Somebody takes the raised flag who was asked to stop. -/
def StopAbsorbed (app : App) : Prop :=
  match app.current with
  | some (run, .testing (_ :: _)) => run.stopRequested = true
  | some (_, .testing []) => True
  | some (_, .launched _) => True
  | _ => ∃ run rest, app.queue = run :: rest ∧ run.stopRequested = true

structure StopInvariant (app : App) : Prop where
  owned : Owned viewModel app
  queued : ∀ run ∈ app.queue, run.executed = []
  absorbed : (app.viewModels viewModel).forceStop = true → StopAbsorbed app
  complete : ∀ run remaining, app.current = some (run, .testing remaining) →
    run.stopRequested = false →
      run.executed.map TestRun.testCase ++ remaining = TestCase.entries
  launched : ∀ launch ∈ app.launches, launch.run.stopRequested = false →
    launch.run.executed.map TestRun.testCase = TestCase.entries

theorem stopInvariant_start (filePath : TestRef → String) (files : Finset String) :
    StopInvariant viewModel (App.start filePath files) where
  owned := owned_start viewModel filePath files
  queued := by simp [App.start]
  absorbed := by simp [App.start]
  complete := by simp [App.start]
  launched := by simp [App.start]

theorem stopInvariant_onTestStart (app : App) (invariant : StopInvariant viewModel app) :
    StopInvariant viewModel (app.onTestStart viewModel) where
  owned := owned_onTestStart viewModel app invariant.owned
  queued := App.queued_onTestStart viewModel rfl invariant.queued
  absorbed := by
    intro raised
    have before : StopAbsorbed app := by
      apply invariant.absorbed
      simpa [App.onTestStart, App.setViewModel] using raised
    simp only [StopAbsorbed, App.onTestStart, App.setViewModel] at before ⊢
    split at before
    · exact before
    · trivial
    · trivial
    · obtain ⟨run, rest, queued, requested⟩ := before
      exact ⟨run, rest ++ [{ owner := viewModel }], by rw [queued]; rfl, requested⟩
  complete := invariant.complete
  launched := invariant.launched

theorem noteStop_requested (owner : Nat) (run : Run) (same : run.owner = owner) :
    (App.noteStop owner run).stopRequested = true := by
  simp [App.noteStop, same]

theorem stopAbsorbed_onTestStop (app : App) (owned : Owned viewModel app)
    (ahead : resetAhead app = true) : StopAbsorbed (app.onTestStop viewModel) := by
  have head : (!app.queue.isEmpty) = true →
      ∃ run rest, app.queue.map (App.noteStop viewModel) = run :: rest ∧
        run.stopRequested = true := by
    intro nonempty
    obtain ⟨run, rest, queued⟩ := List.exists_cons_of_ne_nil (by simpa using nonempty)
    have owner := owned.queued run (by rw [queued]; exact List.mem_cons_self ..)
    exact ⟨App.noteStop viewModel run, rest.map (App.noteStop viewModel), by rw [queued]; rfl,
      noteStop_requested viewModel run owner⟩
  cases position : app.current with
  | none =>
      simp only [StopAbsorbed, App.onTestStop, position, Option.map_none]
      simp only [resetAhead, position, Bool.or_false] at ahead
      exact head ahead
  | some executing =>
      obtain ⟨run, phase⟩ := executing
      have owner := owned.executing run phase position
      simp only [StopAbsorbed, App.onTestStop, position, Option.map_some]
      cases phase with
      | testing remaining =>
          cases remaining with
          | nil => trivial
          | cons testCase rest => exact noteStop_requested viewModel run owner
      | launched score => trivial
      | stopReset score =>
          simp only [resetAhead, position, Bool.or_false] at ahead
          exact head ahead

theorem stopInvariant_onTestStop (app : App) (invariant : StopInvariant viewModel app)
    (ahead : resetAhead app = true) : StopInvariant viewModel (app.onTestStop viewModel) where
  owned := owned_onTestStop viewModel app invariant.owned
  queued := App.queued_onTestStop viewModel
    (fun run => (App.noteStop_executed viewModel run).trans) invariant.queued
  absorbed := fun _ => stopAbsorbed_onTestStop viewModel app invariant.owned ahead
  complete := by
    intro run remaining position unrequested
    obtain ⟨before, current, same⟩ :=
      App.onTestStop_current_testing app viewModel run remaining position
    rcases same with rfl | rfl
    · exact invariant.complete run remaining current unrequested
    · have owner := invariant.owned.executing before _ current
      rw [noteStop_requested viewModel before owner] at unrequested
      cases unrequested
  launched := invariant.launched

/-- The flag a loop reads as true was raised for its own run. -/
theorem requested_of_stopped (app : App) (invariant : StopInvariant viewModel app) (run : Run)
    (testCase : TestCase) (remaining : List TestCase)
    (position : app.current = some (run, .testing (testCase :: remaining)))
    (stopped : (app.viewModels run.owner).forceStop = true) : run.stopRequested = true := by
  rw [invariant.owned.executing run _ position] at stopped
  have absorbed := invariant.absorbed stopped
  simpa only [StopAbsorbed, position] using absorbed

theorem stopAbsorbed_native (app next : App) (action : NativeStep)
    (invariant : StopInvariant viewModel app) (taken : App.NativeTaken json app action next)
    (raised : (next.viewModels viewModel).forceStop = true) : StopAbsorbed next := by
  cases taken with
  | dequeue run rest idle queued =>
      have before := invariant.absorbed raised
      simp only [StopAbsorbed, idle, queued] at before
      obtain ⟨other, others, same, requested⟩ := before
      cases same
      exact requested
  | skip run testCase remaining outcome position stopped =>
      cases remaining with
      | nil => trivial
      | cons next rest =>
          exact requested_of_stopped viewModel app invariant run testCase _ position stopped
  | test run testCase remaining outcome position unstopped =>
      rw [invariant.owned.executing run _ position] at unstopped
      exact absurd (unstopped.symm.trans raised) Bool.false_ne_true
  | score => trivial
  | resetForceStop run score position =>
      have owner := invariant.owned.executing run _ position
      simp [App.setViewModel, owner] at raised
  | resetRunning run score position =>
      have owner := invariant.owned.executing run _ position
      have before := invariant.absorbed (by simpa [App.setViewModel, owner] using raised)
      simp only [StopAbsorbed, position] at before
      exact before

theorem stopInvariant_native (app next : App) (action : NativeStep)
    (invariant : StopInvariant viewModel app)
    (taken : App.NativeTaken json app action next) : StopInvariant viewModel next where
  owned := owned_native json viewModel app next action invariant.owned taken
  queued := App.queued_native taken invariant.queued
  absorbed := stopAbsorbed_native json viewModel app next action invariant taken
  complete := by
    intro run remaining position unrequested
    rcases App.testing_native taken run remaining position with
      ⟨_, ⟨rest, queued⟩, rfl⟩ | ⟨testCase, current, stopped, _⟩ |
        ⟨before, testCase, outcome, current, _, _, rfl⟩
    · have fresh := invariant.queued run (by rw [queued]; exact List.mem_cons_self ..)
      rw [fresh, List.map_nil, List.nil_append]
    · have requested :=
        requested_of_stopped viewModel app invariant run testCase remaining current stopped
      exact absurd (unrequested.symm.trans requested) Bool.false_ne_true
    · have earlier := invariant.complete before _ current unrequested
      simpa using earlier
  launched := by
    intro launch member unrequested
    rcases App.mem_launches_native taken launch member with
      old | ⟨run, _, _, position, same, _⟩
    · exact invariant.launched launch old unrequested
    · rw [same] at unrequested ⊢
      simpa using invariant.complete run [] position unrequested

theorem stopInvariant_step (screen next : Screen) (event : ScreenEvent)
    (invariant : StopInvariant viewModel screen.app) (condition : StopsWhenPending screen event)
    (taken : screen.step json viewModel event = some next) : StopInvariant viewModel next.app := by
  cases step_taken json viewModel screen next event taken with
  | render => exact invariant
  | stop rendered =>
      exact stopInvariant_onTestStop viewModel screen.app invariant (condition rendered)
  | start => exact stopInvariant_onTestStart viewModel screen.app invariant
  | native action app appTaken =>
      exact stopInvariant_native json viewModel screen.app app action invariant appTaken

/-- In every interleaving whose stop clicks are all made while a reset of the
flag is ahead, a run that was not asked to stop executes every test case. -/
theorem unstopped_run_executes_entries (filePath : TestRef → String) (files : Finset String)
    (events : List ScreenEvent) (screen : Screen)
    (pending : Along (step json viewModel) StopsWhenPending (start filePath files) events)
    (run : runEvents (step json viewModel) (start filePath files) events = some screen) :
    ∀ launch ∈ screen.app.launches, launch.run.stopRequested = false →
      launch.run.executed.map TestRun.testCase = TestCase.entries := by
  have invariant := runEvents_invariant (step json viewModel)
    (fun screen => StopInvariant viewModel screen.app) StopsWhenPending
    (fun before event next holds condition taken =>
      stopInvariant_step json viewModel before next event holds condition taken)
    events _ screen (stopInvariant_start viewModel filePath files) pending run
  exact invariant.launched

/-- A whole block, from the queue to the launch of its record. -/
def silentBlock : List ScreenEvent :=
  [.native .dequeue] ++
    List.replicate TestCase.entries.length (.native (.test App.silentOutcome)) ++
    [.native (.score 0)]

/-- The stop click falls between the two writes that end the first run; the
second run, started later and never stopped, executes no test. -/
def staleStop : List ScreenEvent :=
  [.click, .render] ++ silentBlock ++
    [.native .resetForceStop, .click, .native .resetRunning, .render, .click] ++ silentBlock

/-- The same clicks with the stop made before the reset of the flag. -/
def timelyStop : List ScreenEvent :=
  [.click, .render] ++ silentBlock ++
    [.click, .native .resetForceStop, .native .resetRunning, .render, .click] ++ silentBlock

/-- Which runs were launched: whether they were asked to stop and what they
executed. -/
def launchedRuns (screen : Screen) : List (Bool × List TestCase) :=
  screen.app.launches.map fun launch =>
    (launch.run.stopRequested, launch.run.executed.map TestRun.testCase)

theorem timelyStop_runs_execute_entries :
    ∃ screen, runEvents (step App.sampleJson 0) sampleScreen timelyStop = some screen ∧
      screen.launchedRuns = [(false, TestCase.entries), (false, TestCase.entries)] ∧
      ∀ launch ∈ screen.app.launches, launch.run.stopRequested = false →
        launch.run.executed.map TestRun.testCase = TestCase.entries := by
  have evaluated : (runEvents (step App.sampleJson 0) sampleScreen timelyStop).map launchedRuns =
      some [(false, TestCase.entries), (false, TestCase.entries)] := by
    decide +kernel
  obtain ⟨screen, run, launched⟩ := Option.map_eq_some_iff.mp evaluated
  exact ⟨screen, run, launched,
    unstopped_run_executes_entries App.sampleJson 0 _ _ _ screen (by decide +kernel) run⟩

theorem staleStop_skips_unstopped_run :
    ∃ screen launch, runEvents (step App.sampleJson 0) sampleScreen staleStop = some screen ∧
      launch ∈ screen.app.launches ∧ launch.run.stopRequested = false ∧
      launch.run.executed.map TestRun.testCase ≠ TestCase.entries := by
  have evaluated : (runEvents (step App.sampleJson 0) sampleScreen staleStop).map launchedRuns =
      some [(false, TestCase.entries), (false, [])] := by
    decide +kernel
  obtain ⟨screen, run, launched⟩ := Option.map_eq_some_iff.mp evaluated
  have second : (false, []) ∈ screen.launchedRuns := by
    rw [launched]
    exact List.mem_cons_of_mem _ (List.mem_singleton_self _)
  obtain ⟨launch, member, same⟩ := List.mem_map.mp second
  obtain ⟨unrequested, nothing⟩ := Prod.mk.inj same
  refine ⟨screen, launch, run, member, unrequested, ?_⟩
  rw [nothing]
  decide

end RaptorMark.Screen
