import RaptorMark.ViewModels.RecordedResults

/-!
# Message isolation between tests

`runTest` registers its listener before the native call and unregisters it
after it.  As long as every native call returns, exactly the running test
listens and nobody listens between tests.  A call that throws leaves its
listener registered, and that is the only way isolation is lost.
-/

set_option autoImplicit false

namespace RaptorMark

open Lib Lib.Kotlin Lib.Transition

/-- The native call returns and the listener can parse what it has received
after each message. -/
def NativeOutcome.ReturnsNormally (json : OrgJson) (outcome : NativeOutcome) : Prop :=
  (∃ code, outcome.ending = .returned code) ∧
    ∀ received, received <+: outcome.messages → received ≠ [] →
      (parseResult json (lineSeparator.intercalate received)).isOk = true

namespace World

variable (json : OrgJson)

/-- With one listener the delivery returns exactly if that listener can parse
its text after every message. -/
theorem deliver_single (world : World) (ref : TestRef) (callbacks : List Callback)
    (single : world.listeners.elements = [ref]) :
    (world.deliver json callbacks).2 = .ok () ↔
      ParsesEach json (world.tests ref).nativeResult (callbacks.map Callback.message) := by
  rw [deliver_ok_iff]
  simp [HashSet.mem_def, single]

theorem enterNative_single (world : World) (ref : TestRef)
    (nobody : world.listeners.elements = []) :
    (world.enterNative ref).listeners.elements = [ref] :=
  HashSet.add_empty _ _ nobody

theorem nativeTest_returns_iff (world : World) (ref : TestRef) (outcome : NativeOutcome)
    (nobody : world.listeners.elements = []) :
    (∃ code, ((world.enterNative ref).nativeTest json outcome).2 = .ok code) ↔
      outcome.ReturnsNormally json := by
  have single := enterNative_single world ref nobody
  have empty : ((world.enterNative ref).tests ref).nativeResult = none := by
    simp [enterNative, registerListener]
  have delivered := deliver_single json (world.enterNative ref) ref outcome.callbacks single
  rw [empty] at delivered
  constructor
  · rintro ⟨code, returned⟩
    obtain ⟨everything, ended⟩ := (nativeTest_ok_iff json _ outcome code).mp returned
    refine ⟨⟨code, ended⟩, fun received short nonempty => ?_⟩
    apply delivered.mp everything received short nonempty
    rw [accumulate_none, if_neg nonempty]
  · rintro ⟨⟨code, ended⟩, parses⟩
    refine ⟨code, (nativeTest_ok_iff json _ outcome code).mpr ⟨delivered.mpr ?_, ended⟩⟩
    intro received short nonempty text accumulated
    rw [accumulate_none, if_neg nonempty] at accumulated
    cases accumulated
    exact parses received short nonempty

/-- From an empty set, the listener is removed exactly if the call returns. -/
theorem runTest_listeners_empty_iff (world : World) (ref : TestRef) (outcome : NativeOutcome)
    (nobody : world.listeners.elements = []) :
    (world.runTest json ref outcome).1.listeners.elements = [] ↔
      outcome.ReturnsNormally json := by
  have single := enterNative_single world ref nobody
  rw [← nativeTest_listeners json _ outcome] at single
  rw [← nativeTest_returns_iff json world ref outcome nobody]
  unfold runTest
  split
  · rename_i called exception call
    rw [call] at single ⊢
    dsimp only at single ⊢
    simp [single]
  · rename_i called code call
    rw [call] at single ⊢
    exact ⟨fun _ => ⟨code, rfl⟩, fun _ => HashSet.remove_singleton _ _ single⟩

end World

namespace App

variable (json : OrgJson)

/-- The test whose native call the next iteration enters. -/
def nextTest (app : App) : Option TestRef :=
  match app.current with
  | some (run, .testing (testCase :: _)) =>
      if (app.viewModels run.owner).forceStop then none else some ⟨run.owner, testCase⟩
  | _ => none

/-- Only an iteration that enters its test changes the world. -/
theorem step_world (app next : App) (event : Event) (taken : app.step json event = some next) :
    (next.world = app.world ∧ ∀ outcome, event = .native (.test outcome) → app.nextTest = none) ∨
      ∃ ref outcome, event = .native (.test outcome) ∧ app.nextTest = some ref ∧
        next.world = (app.world.runTest json ref outcome).1 := by
  cases event with
  | onTestStart owner => cases taken; exact Or.inl ⟨rfl, nofun⟩
  | onTestStop owner => cases taken; exact Or.inl ⟨rfl, nofun⟩
  | native action =>
      cases nativeStep_taken json app next action taken with
      | dequeue => exact Or.inl ⟨rfl, nofun⟩
      | score => exact Or.inl ⟨rfl, nofun⟩
      | resetForceStop => exact Or.inl ⟨rfl, nofun⟩
      | resetRunning => exact Or.inl ⟨rfl, nofun⟩
      | skip run testCase remaining outcome position stopped =>
          exact Or.inl ⟨rfl, fun _ _ => by simp [nextTest, position, stopped]⟩
      | test run testCase remaining outcome position unstopped =>
          exact Or.inr ⟨⟨run.owner, testCase⟩, outcome, rfl,
            by simp [nextTest, position, unstopped], rfl⟩

/-- Nobody listens between tests; inside the next test's native call exactly
its own listener is registered, and whatever messages arrive there change no
other test object. -/
structure Isolated (app : App) : Prop where
  between : app.world.listeners.elements = []
  entered : ∀ ref ∈ app.nextTest, (app.world.enterNative ref).listeners.elements = [ref]
  messages : ∀ ref ∈ app.nextTest, ∀ callbacks, ∀ other, other ≠ ref →
    ((app.world.enterNative ref).deliver json callbacks).1.tests other = app.world.tests other

theorem isolated_iff (app : App) : Isolated json app ↔ app.world.listeners.elements = [] := by
  refine ⟨Isolated.between, fun nobody => ⟨nobody, ?_, ?_⟩⟩
  · intro ref _
    exact World.enterNative_single app.world ref nobody
  · intro ref _ callbacks other different
    have unheard : other ∉ (app.world.enterNative ref).listeners := by
      rw [HashSet.mem_def, World.enterNative_single app.world ref nobody, List.mem_singleton]
      exact different
    rw [World.deliver_other json _ callbacks other unheard,
      World.enterNative_other app.world ref other different]

/-- The native call of a test that is run returns. -/
def NativeCallReturns (app : App) : Event → Prop
  | .native (.test outcome) => app.nextTest.isSome → outcome.ReturnsNormally json
  | _ => True

theorem listeners_empty_step (app next : App) (event : Event)
    (nobody : app.world.listeners.elements = []) (taken : app.step json event = some next) :
    NativeCallReturns json app event ↔ next.world.listeners.elements = [] := by
  rcases step_world json app next event taken with
    ⟨world, idle⟩ | ⟨ref, outcome, rfl, entered, world⟩
  · have quiet : NativeCallReturns json app event := by
      unfold NativeCallReturns
      split
      · intro entered
        rw [idle _ rfl] at entered
        cases entered
      · trivial
    rw [world]
    exact ⟨fun _ => nobody, fun _ => quiet⟩
  · have exact := World.runTest_listeners_empty_iff json app.world ref outcome nobody
    rw [world, exact]
    exact ⟨fun returns => returns (by rw [entered]; rfl), fun returns _ => returns⟩

/-- A run keeps its messages isolated in every state it passes through exactly
if every native call it makes returns. -/
theorem isolated_throughout_iff (filePath : TestRef → String) (files : Finset String)
    (events : List Event) :
    Throughout (step json) (Isolated json) (start filePath files) events ↔
      Along (step json) (NativeCallReturns json) (start filePath files) events := by
  apply throughout_iff_along (step json) (fun _ => True)
  · exact fun _ _ _ _ _ => trivial
  · intro app event next _ isolated taken
    rw [isolated_iff json next]
    exact listeners_empty_step json app next event isolated.between taken
  · trivial
  · exact (isolated_iff json _).mpr rfl

/-- The disk is full: one of fio's plain lines, and a code that is not zero. -/
def noticeOutcome : NativeOutcome := ⟨[⟨noticeLine, .stored⟩], .returned 8, id⟩

/-- The first test's listener throws on a plain line and stays registered; the
second test's report then also goes to the first test's object. -/
theorem failed_test_hears_next_test :
    ∃ app,
      runEvents (step sampleJson) sampleStart
        [.onTestStart 0, .native .dequeue, .native (.test noticeOutcome)] = some app ∧
      app.nextTest = some ⟨0, .q8t8SeqWr⟩ ∧
      (app.world.enterNative ⟨0, .q8t8SeqWr⟩).listeners.elements =
        [⟨0, .q8t8SeqRd⟩, ⟨0, .q8t8SeqWr⟩] ∧
      (((app.world.enterNative ⟨0, .q8t8SeqWr⟩).deliver sampleJson
          reportOutcome.callbacks).1.tests ⟨0, .q8t8SeqRd⟩).nativeResult ≠
        (app.world.tests ⟨0, .q8t8SeqRd⟩).nativeResult ∧
      ¬Isolated sampleJson app := by
  have evaluated : (runEvents (step sampleJson) sampleStart
      [.onTestStart 0, .native .dequeue, .native (.test noticeOutcome)]).map (fun app =>
        (app.nextTest, (app.world.enterNative ⟨0, .q8t8SeqWr⟩).listeners.elements,
          decide ((((app.world.enterNative ⟨0, .q8t8SeqWr⟩).deliver sampleJson
              reportOutcome.callbacks).1.tests ⟨0, .q8t8SeqRd⟩).nativeResult ≠
            (app.world.tests ⟨0, .q8t8SeqRd⟩).nativeResult))) =
      some (some ⟨0, .q8t8SeqWr⟩, [⟨0, .q8t8SeqRd⟩, ⟨0, .q8t8SeqWr⟩], true) := by
    decide +kernel
  obtain ⟨app, run, facts⟩ := Option.map_eq_some_iff.mp evaluated
  simp only [Prod.mk.injEq, decide_eq_true_eq] at facts
  obtain ⟨next, listeners, changed⟩ := facts
  refine ⟨app, run, next, listeners, changed, fun isolated => ?_⟩
  have alone := isolated.entered ⟨0, .q8t8SeqWr⟩ (by rw [next]; rfl)
  rw [listeners] at alone
  cases alone

end App

end RaptorMark
