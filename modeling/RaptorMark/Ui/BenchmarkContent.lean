import RaptorMark.ViewModels.RecordedResults

/-!
# The start/stop button

`BenchmarkContent` captures `benchmarkViewModel.benchmarkState` when it is
composed, and the button's `onClick` decides on that captured value.  A screen
is therefore the app together with the value that was last rendered, which may
lag behind the current one by any number of steps of the native thread.
-/

set_option autoImplicit false

namespace RaptorMark

open Lib Lib.Kotlin Lib.Transition

structure Screen where
  app : App
  /-- `state.running` as the last composition read it. -/
  rendered : Bool

inductive ScreenEvent where
  | render
  | click
  | native (action : NativeStep)

namespace Screen

variable (json : OrgJson) (viewModel : Nat)

/-- The first composition of a fresh process. -/
def start (filePath : TestRef → String) (files : Finset String) : Screen where
  app := App.start filePath files
  rendered := false

def running (screen : Screen) : Bool :=
  (screen.app.viewModels viewModel).benchmarkState.running

def onClick (screen : Screen) : Screen :=
  if screen.rendered then
    { screen with app := screen.app.onTestStop viewModel }
  else
    { screen with app := screen.app.onTestStart viewModel }

def step (screen : Screen) : ScreenEvent → Option Screen
  | .render => some { screen with rendered := screen.running viewModel }
  | .click => some (screen.onClick viewModel)
  | .native action => (screen.app.nativeStep json action).map fun app => { screen with app }

/-- What a step of the screen can do. -/
inductive Taken (screen : Screen) : ScreenEvent → Screen → Prop where
  | render : Taken screen .render { screen with rendered := screen.running viewModel }
  | stop (rendered : screen.rendered = true) :
      Taken screen .click { screen with app := screen.app.onTestStop viewModel }
  | start (rendered : screen.rendered = false) :
      Taken screen .click { screen with app := screen.app.onTestStart viewModel }
  | native (action : NativeStep) (app : App) (taken : App.NativeTaken json screen.app action app) :
      Taken screen (.native action) { screen with app }

theorem step_taken (screen next : Screen) (event : ScreenEvent)
    (taken : screen.step json viewModel event = some next) :
    Taken json viewModel screen event next := by
  cases event with
  | render => cases taken; exact .render
  | click =>
      by_cases rendered : screen.rendered = true
      · rw [step, onClick, if_pos rendered] at taken
        cases taken
        exact .stop rendered
      · rw [step, onClick, if_neg rendered] at taken
        cases taken
        exact .start (Bool.eq_false_iff.mpr rendered)
  | native action =>
      obtain ⟨app, appTaken, rfl⟩ := Option.map_eq_some_iff.mp taken
      exact .native action app (App.nativeStep_taken json screen.app app action appTaken)

/-! ## Every block belongs to the screen's view model -/

structure Owned (app : App) : Prop where
  queued : ∀ run ∈ app.queue, run.owner = viewModel
  executing : ∀ run phase, app.current = some (run, phase) → run.owner = viewModel

theorem owned_start (filePath : TestRef → String) (files : Finset String) :
    Owned viewModel (App.start filePath files) where
  queued := by simp [App.start]
  executing := by simp [App.start]

theorem owned_onTestStart (app : App) (owned : Owned viewModel app) :
    Owned viewModel (app.onTestStart viewModel) where
  queued := App.queued_onTestStart viewModel rfl owned.queued
  executing := owned.executing

theorem noteStopCurrent_owner (owner : Nat) (position : Run × Phase) :
    (App.noteStopCurrent owner position).1.owner = position.1.owner := by
  unfold App.noteStopCurrent
  split <;> simp

theorem owned_onTestStop (app : App) (owned : Owned viewModel app) :
    Owned viewModel (app.onTestStop viewModel) where
  queued := App.queued_onTestStop viewModel (fun run => (App.noteStop_owner viewModel run).trans)
    owned.queued
  executing := by
    intro run phase position
    obtain ⟨before, current, noted⟩ := Option.map_eq_some_iff.mp position
    have same := noteStopCurrent_owner viewModel before
    rw [noted] at same
    exact same.trans (owned.executing before.1 before.2 current)

theorem owned_native (app next : App) (action : NativeStep) (owned : Owned viewModel app)
    (taken : App.NativeTaken json app action next) : Owned viewModel next := by
  refine ⟨App.queued_native taken owned.queued, ?_⟩
  intro other phase reached
  cases taken with
  | dequeue run rest idle queued =>
      cases reached
      exact owned.queued _ (by rw [queued]; exact List.mem_cons_self ..)
  | skip run testCase remaining outcome position =>
      cases reached
      exact owned.executing _ _ position
  | test run testCase remaining outcome position =>
      cases reached
      exact owned.executing run _ position
  | score run now position =>
      cases reached
      exact owned.executing _ _ position
  | resetForceStop run score position =>
      cases reached
      exact owned.executing _ _ position
  | resetRunning => cases reached

theorem owned_step (screen next : Screen) (event : ScreenEvent)
    (owned : Owned viewModel screen.app)
    (taken : screen.step json viewModel event = some next) : Owned viewModel next.app := by
  cases step_taken json viewModel screen next event taken with
  | render => exact owned
  | stop => exact owned_onTestStop viewModel screen.app owned
  | start => exact owned_onTestStart viewModel screen.app owned
  | native action app appTaken => exact owned_native json viewModel _ app action owned appTaken

/-! ## At most one run -/

/-- Blocks queued or executing on the native thread. -/
def pending (screen : Screen) : Nat :=
  screen.app.queue.length + screen.app.current.toList.length

structure OneRun (screen : Screen) : Prop where
  single : screen.pending ≤ 1
  shown : screen.running viewModel = true ↔ 0 < screen.pending

/-- A click that starts a run is not made while one is running. -/
def StartsWhenIdle (screen : Screen) : ScreenEvent → Prop
  | .click => screen.rendered = false → screen.running viewModel = false
  | _ => True

theorem oneRun_start_iff (screen : Screen) (oneRun : OneRun viewModel screen) :
    screen.running viewModel = false ↔
      OneRun viewModel { screen with app := screen.app.onTestStart viewModel } := by
  have more : ({ screen with app := screen.app.onTestStart viewModel } : Screen).pending =
      screen.pending + 1 := by
    simp [pending, App.onTestStart, App.setViewModel]
    omega
  have runs : ({ screen with app := screen.app.onTestStart viewModel } : Screen).running
      viewModel = true := by
    simp [running, App.onTestStart, App.setViewModel]
  constructor
  · intro idle
    have nothing : ¬0 < screen.pending := by
      rw [← oneRun.shown, idle]
      exact Bool.false_ne_true
    exact ⟨by omega, by rw [runs, more]; simp⟩
  · intro next
    have bound := next.single
    rw [more] at bound
    have nothing : ¬screen.running viewModel = true := by
      rw [oneRun.shown]
      omega
    exact Bool.eq_false_iff.mpr nothing

theorem oneRun_stop (screen : Screen) (oneRun : OneRun viewModel screen) :
    OneRun viewModel { screen with app := screen.app.onTestStop viewModel } := by
  have same : ({ screen with app := screen.app.onTestStop viewModel } : Screen).pending =
      screen.pending := by
    simp [pending, App.onTestStop, App.setViewModel, Option.toList_map]
  have runs : ({ screen with app := screen.app.onTestStop viewModel } : Screen).running
      viewModel = screen.running viewModel := by
    simp [running, App.onTestStop, App.setViewModel]
  exact ⟨same ▸ oneRun.single, by rw [runs, same]; exact oneRun.shown⟩

/-- Only the end of a block changes the number of blocks or the flag, and it
changes both. -/
theorem oneRun_native (screen : Screen) (next : App) (action : NativeStep)
    (owned : Owned viewModel screen.app) (oneRun : OneRun viewModel screen)
    (taken : App.NativeTaken json screen.app action next) :
    OneRun viewModel { screen with app := next } := by
  obtain ⟨single, shown⟩ := oneRun
  simp only [pending, running] at single shown
  cases taken with
  | dequeue run rest idle queued =>
      simp only [idle, queued, List.length_cons] at single shown
      exact ⟨by simpa [pending] using single, by simpa [pending, running] using shown⟩
  | skip run testCase remaining outcome position stopped =>
      simp only [position] at single shown
      exact ⟨by simpa [pending] using single, by simpa [pending, running] using shown⟩
  | test run testCase remaining outcome position unstopped =>
      simp only [position] at single shown
      exact ⟨by simpa [pending] using single, by simpa [pending, running] using shown⟩
  | score run now position =>
      simp only [position] at single shown
      exact ⟨by simpa [pending, App.finishTests] using single,
        by simpa [pending, running, App.finishTests] using shown⟩
  | resetForceStop run score position =>
      have owner := owned.executing run _ position
      simp only [position] at single shown
      exact ⟨by simpa [pending, App.setViewModel] using single,
        by simpa [pending, running, App.setViewModel, owner] using shown⟩
  | resetRunning run score position =>
      have owner := owned.executing run _ position
      simp only [position] at single
      have empty : screen.app.queue = [] := by
        apply List.length_eq_zero_iff.mp
        simpa using single
      exact ⟨by simp [pending, App.setViewModel, empty],
        by simp [pending, running, App.setViewModel, owner, empty]⟩

theorem oneRun_step_iff (screen next : Screen) (event : ScreenEvent)
    (owned : Owned viewModel screen.app) (oneRun : OneRun viewModel screen)
    (taken : screen.step json viewModel event = some next) :
    StartsWhenIdle viewModel screen event ↔ OneRun viewModel next := by
  cases step_taken json viewModel screen next event taken with
  | render => exact ⟨fun _ => ⟨oneRun.single, oneRun.shown⟩, fun _ => trivial⟩
  | stop rendered =>
      refine ⟨fun _ => oneRun_stop viewModel screen oneRun, fun _ stale => ?_⟩
      rw [rendered] at stale
      cases stale
  | start rendered =>
      rw [← oneRun_start_iff viewModel screen oneRun]
      exact ⟨fun idle => idle rendered, fun idle _ => idle⟩
  | native action app appTaken =>
      exact ⟨fun _ => oneRun_native json viewModel screen app action owned oneRun appTaken,
        fun _ => trivial⟩

/-- At most one run is queued or executing, and `running` says whether one is,
in every state of an interleaving exactly if no click that starts a run is made
while `running` is already true. -/
theorem oneRun_throughout_iff (filePath : TestRef → String) (files : Finset String)
    (events : List ScreenEvent) :
    Throughout (step json viewModel) (OneRun viewModel) (start filePath files) events ↔
      Along (step json viewModel) (StartsWhenIdle viewModel) (start filePath files) events := by
  apply throughout_iff_along (step json viewModel) (fun screen => Owned viewModel screen.app)
  · exact fun screen event next owned taken =>
      owned_step json viewModel screen next event owned taken
  · exact fun screen event next owned oneRun taken =>
      oneRun_step_iff json viewModel screen next event owned oneRun taken
  · exact owned_start viewModel filePath files
  · exact ⟨by simp [pending, start, App.start], by simp [pending, running, start, App.start]⟩

def sampleScreen : Screen := start (fun ref => "/data/" ++ ref.testCase.name) ∅

/-- Two clicks before the screen is composed again queue two runs. -/
theorem double_click_queues_two_runs :
    ∃ screen, runEvents (step App.sampleJson 0) sampleScreen [.click, .click] = some screen ∧
      screen.pending = 2 ∧ ¬OneRun 0 screen := by
  refine ⟨_, rfl, rfl, fun oneRun => ?_⟩
  exact absurd oneRun.single (by decide)

end Screen

end RaptorMark
