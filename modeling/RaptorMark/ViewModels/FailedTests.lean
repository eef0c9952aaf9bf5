import RaptorMark.ViewModels.BlockExecution

/-!
# Tests whose native call reports a failure

`runTest` keeps the code of the native call in `ret` and never looks at it:
what is recorded depends on the messages alone.  fio returns the number of
failed jobs and still prints a report for them, so a failed test is recorded
and scored like any other.  A failed test leaves no trace only if its call was
silent, its item held nothing that counts and its listener was not registered
already.

The run without the failed test is the same loop over the block's other tests,
from the same world.
-/

set_option autoImplicit false

namespace RaptorMark

open Lib Lib.Kotlin Lib.Transition

namespace World

/-! ## Worlds that differ in one test only -/

/-- The worlds differ at most in the files and in one test, whose listener is
not registered. -/
structure AgreeOff (ref : TestRef) (left right : World) : Prop where
  listeners : right.listeners = left.listeners
  unheard : ref ∉ left.listeners
  others : ∀ other, other ≠ ref → right.tests other = left.tests other

/-- Two calls that end alike, in worlds that agree. -/
def EndAlike {α : Type} (ref : TestRef) (left right : World × α) : Prop :=
  ∃ leftWorld rightWorld result, left = (leftWorld, result) ∧ right = (rightWorld, result) ∧
    AgreeOff ref leftWorld rightWorld

namespace AgreeOff

variable {ref : TestRef} {left right : World} (agree : AgreeOff ref left right) (json : OrgJson)

include agree

theorem setTest (target : TestRef) (test : BenchmarkTest) :
    AgreeOff ref (left.setTest target test) (right.setTest target test) where
  listeners := agree.listeners
  unheard := agree.unheard
  others := by
    intro other different
    by_cases same : other = target
    · subst same
      rw [setTest_tests_same, setTest_tests_same]
    · rw [setTest_tests_other _ _ _ _ same, setTest_tests_other _ _ _ _ same]
      exact agree.others other different

theorem onTestResult (target : TestRef) (different : target ≠ ref) (message : String) :
    EndAlike ref (left.onTestResult json target message)
      (right.onTestResult json target message) := by
  unfold World.onTestResult
  rw [agree.others target different]
  dsimp only
  cases parseResult json (joinResult (left.tests target).nativeResult message) with
  | ok parsed => exact ⟨_, _, _, rfl, rfl, agree.setTest _ _⟩
  | error exception => exact ⟨_, _, _, rfl, rfl, agree.setTest _ _⟩

theorem notifyListeners (message : String) (refs : List TestRef) (absent : ref ∉ refs) :
    EndAlike ref (World.notifyListeners json message left refs)
      (World.notifyListeners json message right refs) := by
  induction refs generalizing left right with
  | nil => exact ⟨_, _, _, rfl, rfl, agree⟩
  | cons target rest ih =>
      rw [List.mem_cons, not_or] at absent
      obtain ⟨leftNext, rightNext, result, leftStep, rightStep, agreeNext⟩ :=
        agree.onTestResult json target (Ne.symm absent.1) message
      unfold World.notifyListeners
      rw [leftStep, rightStep]
      cases result with
      | error exception => exact ⟨_, _, _, rfl, rfl, agreeNext⟩
      | ok _ => exact ih agreeNext absent.2

theorem deliver (callbacks : List Callback) :
    EndAlike ref (left.deliver json callbacks) (right.deliver json callbacks) := by
  induction callbacks generalizing left right with
  | nil => exact ⟨_, _, _, rfl, rfl, agree⟩
  | cons callback rest ih =>
      have absent : ref ∉ left.listeners.iterate callback.order := by
        rw [HashSet.mem_iterate]
        exact agree.unheard
      obtain ⟨leftNext, rightNext, result, leftStep, rightStep, agreeNext⟩ :=
        agree.notifyListeners json callback.message _ absent
      unfold World.deliver updateStatus
      rw [agree.listeners, leftStep, rightStep]
      cases result with
      | error exception => exact ⟨_, _, _, rfl, rfl, agreeNext⟩
      | ok _ => exact ih agreeNext

theorem nativeTest (outcome : NativeOutcome) :
    EndAlike ref (left.nativeTest json outcome) (right.nativeTest json outcome) := by
  obtain ⟨leftNext, rightNext, result, leftStep, rightStep, agreeNext⟩ :=
    agree.deliver json outcome.callbacks
  unfold World.nativeTest
  rw [leftStep, rightStep]
  have agreeLeft : AgreeOff ref { leftNext with files := outcome.files leftNext.files }
      { rightNext with files := outcome.files rightNext.files } :=
    ⟨agreeNext.listeners, agreeNext.unheard, agreeNext.others⟩
  cases result with
  | error exception => exact ⟨_, _, _, rfl, rfl, agreeLeft⟩
  | ok _ =>
      cases outcome.ending with
      | returned code => exact ⟨_, _, _, rfl, rfl, agreeLeft⟩
      | threw => exact ⟨_, _, _, rfl, rfl, agreeLeft⟩

theorem enterNative (target : TestRef) (different : target ≠ ref) :
    AgreeOff ref (left.enterNative target) (right.enterNative target) := by
  unfold World.enterNative
  rw [agree.others target different]
  have stored := agree.setTest target { left.tests target with nativeResult := none }
  refine ⟨?_, ?_, stored.others⟩
  · simp only [registerListener, stored.listeners]
  · intro member
    rcases (HashSet.mem_add _ _ _).mp member with same | old
    · exact different same.symm
    · exact stored.unheard old

/-- A test that is run in both worlds ends alike. -/
theorem runTest (target : TestRef) (different : target ≠ ref) (outcome : NativeOutcome) :
    EndAlike ref (left.runTest json target outcome) (right.runTest json target outcome) := by
  obtain ⟨leftNext, rightNext, result, leftStep, rightStep, agreeNext⟩ :=
    (agree.enterNative target different).nativeTest json outcome
  unfold World.runTest
  rw [leftStep, rightStep]
  cases result with
  | error exception => exact ⟨_, _, _, rfl, rfl, agreeNext⟩
  | ok code =>
      have sameText : (rightNext.tests target).nativeResult =
          (leftNext.tests target).nativeResult := by
        rw [agreeNext.others target different]
      refine ⟨_, _, _, rfl, congrArg (fun text => (_, Except.ok text)) sameText, ?_⟩
      refine ⟨?_, ?_, agreeNext.others⟩
      · exact congrArg (HashSet.remove · target) agreeNext.listeners
      · intro member
        exact agreeNext.unheard ((HashSet.mem_remove _ _ _).mp member).2

end AgreeOff

/-! ## One failed call -/

variable (json : OrgJson)

/-- `native_FIOTest` returns a code other than zero. -/
def Failed (world : World) (ref : TestRef) (outcome : NativeOutcome) : Prop :=
  ∃ code, ((world.enterNative ref).nativeTest json outcome).2 = .ok code ∧ code ≠ 0

theorem runTest_failed (world : World) (ref : TestRef) (outcome : NativeOutcome)
    (failed : world.Failed json ref outcome) :
    (world.runTest json ref outcome).2 = .ok (accumulate none outcome.messages) ∧
      ref ∉ (world.runTest json ref outcome).1.listeners := by
  obtain ⟨code, call, _⟩ := failed
  have returned := congrArg Prod.snd (runTest_of_call json world ref outcome code call)
  obtain ⟨removed, joined, _⟩ := runTest_ok json world ref outcome _ returned
  exact ⟨joined ▸ returned, removed⟩

/-- A failed call without messages changes the text and the registration of its
test and nothing else. -/
theorem runTest_failed_silent (world : World) (ref : TestRef) (outcome : NativeOutcome)
    (failed : world.Failed json ref outcome) (silent : outcome.messages = []) :
    ((world.runTest json ref outcome).1.tests ref).testResult = (world.tests ref).testResult ∧
      (∀ other, other ≠ ref →
        (world.runTest json ref outcome).1.tests other = world.tests other) ∧
      (world.runTest json ref outcome).1.listeners = (world.listeners.add ref).remove ref := by
  obtain ⟨code, call, _⟩ := failed
  have nothing : outcome.callbacks = [] := List.map_eq_nil_iff.mp silent
  have tests : ((world.enterNative ref).nativeTest json outcome).1.tests =
      (world.enterNative ref).tests := by
    rw [nativeTest_tests, nothing]
    rfl
  have listeners := nativeTest_listeners json (world.enterNative ref) outcome
  rw [runTest_of_call json world ref outcome code call]
  simp only [deleteTestFile, unregisterListener, tests, listeners]
  refine ⟨?_, fun other different => enterNative_other world ref other different, rfl⟩
  simp [enterNative, registerListener]

theorem agreeOff_of_failed_silent (world : World) (ref : TestRef) (outcome : NativeOutcome)
    (failed : world.Failed json ref outcome) (silent : outcome.messages = [])
    (unheard : ref ∉ world.listeners) :
    AgreeOff ref world (world.runTest json ref outcome).1 := by
  obtain ⟨_, others, listeners⟩ := runTest_failed_silent json world ref outcome failed silent
  refine ⟨?_, unheard, others⟩
  rw [listeners, HashSet.remove_add _ _ unheard]

end World

/-! ## The tests of a block -/

/-- What the `forEach` of a block works on. -/
structure BlockState where
  world : World
  results : Results

namespace BlockState

variable (json : OrgJson) (owner : Nat)

/-- One iteration that is not skipped. -/
def runItem (state : BlockState) (test : TestCase × NativeOutcome) : BlockState where
  world := (state.world.runTest json ⟨owner, test.1⟩ test.2).1
  results := state.results.recordReturned test.1
    (state.world.runTest json ⟨owner, test.1⟩ test.2).2

def runItems (state : BlockState) (tests : List (TestCase × NativeOutcome)) : BlockState :=
  tests.foldl (runItem json owner) state

/-- What the test items show. -/
def shown (state : BlockState) (testCase : TestCase) : Option TestResult :=
  (state.world.tests ⟨owner, testCase⟩).testResult

theorem recordReturned_other (results : Results) (testCase other : TestCase)
    (returned : Except JavaException (Option String)) (different : other ≠ testCase) :
    results.recordReturned testCase returned other = results other := by
  unfold Results.recordReturned
  split
  · exact Function.update_of_ne different _ _
  · rfl
  · rfl

theorem runItems_results (tests : List (TestCase × NativeOutcome)) (state : BlockState)
    (testCase : TestCase) (absent : testCase ∉ tests.map Prod.fst) :
    (runItems json owner state tests).results testCase = state.results testCase := by
  induction tests generalizing state with
  | nil => rfl
  | cons test rest ih =>
      rw [List.map_cons, List.mem_cons, not_or] at absent
      exact (ih (state.runItem json owner test) absent.2).trans
        (recordReturned_other _ _ _ _ absent.1)

/-- A test whose listener is not registered is out of reach of the tests that
follow. -/
theorem runItems_shown (tests : List (TestCase × NativeOutcome)) (state : BlockState)
    (testCase : TestCase) (absent : testCase ∉ tests.map Prod.fst)
    (unheard : (⟨owner, testCase⟩ : TestRef) ∉ state.world.listeners) :
    (runItems json owner state tests).shown owner testCase = state.shown owner testCase := by
  induction tests generalizing state with
  | nil => rfl
  | cons test rest ih =>
      rw [List.map_cons, List.mem_cons, not_or] at absent
      have different : (⟨owner, testCase⟩ : TestRef) ≠ ⟨owner, test.1⟩ :=
        fun same => absent.1 (congrArg TestRef.testCase same)
      have still : (⟨owner, testCase⟩ : TestRef) ∉ (state.runItem json owner test).world.listeners :=
        fun member => (World.runTest_listeners_subset json _ _ _ _ member).elim different unheard
      exact (ih (state.runItem json owner test) absent.2 still).trans
        (congrArg BenchmarkTest.testResult
          (World.runTest_other json state.world _ _ test.2 different unheard))

/-- Two states that differ in one test only. -/
structure AgreeOff (testCase : TestCase) (left right : BlockState) : Prop where
  world : World.AgreeOff ⟨owner, testCase⟩ left.world right.world
  results : ∀ other, other ≠ testCase → right.results other = left.results other

theorem AgreeOff.runItem {testCase : TestCase} {left right : BlockState}
    (agree : AgreeOff owner testCase left right) (test : TestCase × NativeOutcome)
    (different : test.1 ≠ testCase) :
    AgreeOff owner testCase (left.runItem json owner test) (right.runItem json owner test) := by
  have otherRef : (⟨owner, test.1⟩ : TestRef) ≠ ⟨owner, testCase⟩ :=
    fun same => different (congrArg TestRef.testCase same)
  obtain ⟨leftNext, rightNext, result, leftStep, rightStep, agreeNext⟩ :=
    agree.world.runTest json ⟨owner, test.1⟩ otherRef test.2
  unfold BlockState.runItem
  rw [leftStep, rightStep]
  refine ⟨agreeNext, fun other otherCase => ?_⟩
  by_cases own : other = test.1
  · subst own
    cases result with
    | error exception => exact agree.results _ otherCase
    | ok text =>
        cases text with
        | none => exact agree.results _ otherCase
        | some raw => simp [Results.recordReturned, Results.setResult]
  · calc right.results.recordReturned test.1 result other
        = right.results other := recordReturned_other _ _ _ _ own
      _ = left.results other := agree.results other otherCase
      _ = left.results.recordReturned test.1 result other :=
          (recordReturned_other _ _ _ _ own).symm

theorem AgreeOff.runItems {testCase : TestCase} {left right : BlockState}
    (agree : AgreeOff owner testCase left right) (tests : List (TestCase × NativeOutcome))
    (absent : testCase ∉ tests.map Prod.fst) :
    AgreeOff owner testCase (left.runItems json owner tests) (right.runItems json owner tests) := by
  induction tests generalizing left right with
  | nil => exact agree
  | cons test rest ih =>
      rw [List.map_cons, List.mem_cons, not_or] at absent
      exact ih (agree.runItem json owner test (Ne.symm absent.1)) absent.2

end BlockState

/-- One summand of the score. -/
def contribution (shown : TestCase → Option TestResult) (testCase : TestCase) : ℚ :=
  testCase.weight * (shown testCase).elim 0 TestResult.calculateScore

/-- A record with the results and the items it was scored from says nothing of
one test, and of all others the same as the run without it. -/
structure NotReported (owner : Nat) (testCase : TestCase) (results : Results)
    (shown : TestCase → Option TestResult) (without : BlockState) : Prop where
  entry : results testCase = none
  nothing : contribution shown testCase = 0
  otherEntries : ∀ other, other ≠ testCase → results other = without.results other
  otherContributions : ∀ other, other ≠ testCase →
    contribution shown other = contribution (without.shown owner) other

namespace BlockState

variable (json : OrgJson) (owner : Nat)

section FailedTest

variable (start : BlockState) (before after : List (TestCase × NativeOutcome))
  (testCase : TestCase) (outcome : NativeOutcome)

theorem runItems_around :
    start.runItems json owner (before ++ (testCase, outcome) :: after) =
      ((start.runItems json owner before).runItem json owner (testCase, outcome)).runItems json
        owner after :=
  List.foldl_append

/-- The entry of a failed test is what its messages joined to, and its item
shows what it showed right after the call. -/
theorem runItems_failed (fresh : start.results testCase = none)
    (notBefore : testCase ∉ before.map Prod.fst) (notAfter : testCase ∉ after.map Prod.fst)
    (failed : (start.runItems json owner before).world.Failed json ⟨owner, testCase⟩ outcome) :
    (start.runItems json owner (before ++ (testCase, outcome) :: after)).results testCase =
        World.accumulate none outcome.messages ∧
      (start.runItems json owner (before ++ (testCase, outcome) :: after)).shown owner testCase =
        ((start.runItems json owner before).runItem json owner (testCase, outcome)).shown owner
          testCase := by
  obtain ⟨returned, removed⟩ := World.runTest_failed json _ _ outcome failed
  have reached : (start.runItems json owner before).results testCase = none :=
    (runItems_results json owner before start testCase notBefore).trans fresh
  rw [runItems_around]
  refine ⟨?_, runItems_shown json owner after _ testCase notAfter removed⟩
  rw [runItems_results json owner after _ testCase notAfter]
  simp only [runItem, returned]
  cases World.accumulate none outcome.messages with
  | none => exact reached
  | some raw => simp [Results.recordReturned, Results.setResult]

/-- Reported exactly through its messages or through what its item showed. -/
theorem failed_unreported_iff (fresh : start.results testCase = none)
    (notBefore : testCase ∉ before.map Prod.fst) (notAfter : testCase ∉ after.map Prod.fst)
    (failed : (start.runItems json owner before).world.Failed json ⟨owner, testCase⟩ outcome) :
    ((start.runItems json owner (before ++ (testCase, outcome) :: after)).results testCase = none ∧
      contribution ((start.runItems json owner (before ++ (testCase, outcome) :: after)).shown
        owner) testCase = 0) ↔
      outcome.messages = [] ∧
        contribution ((start.runItems json owner before).shown owner) testCase = 0 := by
  obtain ⟨entry, shown⟩ := runItems_failed json owner start before after testCase outcome fresh
    notBefore notAfter failed
  have silentIff : World.accumulate none outcome.messages = none ↔ outcome.messages = [] := by
    rw [World.accumulate_none]
    split <;> simp_all
  rw [entry, silentIff]
  apply and_congr_right
  intro silent
  have kept := (World.runTest_failed_silent json _ _ outcome failed silent).1
  have same : (start.runItems json owner (before ++ (testCase, outcome) :: after)).shown owner
      testCase = (start.runItems json owner before).shown owner testCase := shown.trans kept
  rw [contribution, contribution, same]

theorem notReported_of_silent (fresh : start.results testCase = none)
    (notBefore : testCase ∉ before.map Prod.fst) (notAfter : testCase ∉ after.map Prod.fst)
    (failed : (start.runItems json owner before).world.Failed json ⟨owner, testCase⟩ outcome)
    (silent : outcome.messages = [])
    (nothing : contribution ((start.runItems json owner before).shown owner) testCase = 0)
    (unheard : (⟨owner, testCase⟩ : TestRef) ∉
      (start.runItems json owner before).world.listeners) :
    NotReported owner testCase
      (start.runItems json owner (before ++ (testCase, outcome) :: after)).results
      ((start.runItems json owner (before ++ (testCase, outcome) :: after)).shown owner)
      (start.runItems json owner (before ++ after)) := by
  obtain ⟨entry, zero⟩ := (failed_unreported_iff json owner start before after testCase outcome
    fresh notBefore notAfter failed).mpr ⟨silent, nothing⟩
  have agreeHere : AgreeOff owner testCase (start.runItems json owner before)
      ((start.runItems json owner before).runItem json owner (testCase, outcome)) :=
    ⟨World.agreeOff_of_failed_silent json _ _ outcome failed silent unheard,
      fun other different => recordReturned_other _ _ _ _ different⟩
  have agree := agreeHere.runItems json owner after notAfter
  have without : start.runItems json owner (before ++ after) =
      (start.runItems json owner before).runItems json owner after := List.foldl_append
  refine ⟨entry, zero, fun other different => ?_, fun other different => ?_⟩
  · rw [runItems_around, without]
    exact agree.results other different
  · have otherRef : (⟨owner, other⟩ : TestRef) ≠ ⟨owner, testCase⟩ :=
      fun same => different (congrArg TestRef.testCase same)
    rw [runItems_around, without, contribution, contribution, shown, shown,
      agree.world.others ⟨owner, other⟩ otherRef]

end FailedTest

end BlockState

/-! ## Blocks of the app -/

namespace App

variable (json : OrgJson)

/-- A block that is still testing has done what the loop over its executed
tests does, from the world it was taken from the queue in. -/
structure Replayed (owner : Nat) (taken : World) (world : World) (run : Run)
    (remaining : List TestCase) : Prop where
  owned : run.owner = owner
  order : (run.executed.map TestRun.testCase ++ remaining).Sublist TestCase.entries
  state : (⟨world, run.results⟩ : BlockState) =
    BlockState.runItems json owner ⟨taken, fun _ => none⟩ (run.executed.map TestRun.input)

theorem Replayed.noted {owner : Nat} {taken world : World} {run : Run}
    {remaining : List TestCase} (replayed : Replayed json owner taken world run remaining)
    (stopper : Nat) : Replayed json owner taken world (noteStop stopper run) remaining where
  owned := (noteStop_owner stopper run).trans replayed.owned
  order := by
    rw [noteStop_executed]
    exact replayed.order
  state := by
    rw [noteStop_executed, noteStop_results]
    exact replayed.state

def InBlock (owner : Nat) (taken : World) (app : App) : Prop :=
  ∀ run remaining, app.current = some (run, .testing remaining) →
    Replayed json owner taken app.world run remaining

theorem inBlock_step (owner : Nat) (taken : World) (app next : App) (event : Event)
    (inBlock : InBlock json owner taken app) (same : event ≠ .native .dequeue)
    (step : app.step json event = some next) : InBlock json owner taken next := by
  intro run remaining position
  cases event with
  | onTestStart starter =>
      cases step
      exact inBlock run remaining position
  | onTestStop stopper =>
      cases step
      obtain ⟨before, current, rfl | rfl⟩ :=
        onTestStop_current_testing app stopper run remaining position
      · exact inBlock run remaining current
      · exact (inBlock before remaining current).noted json stopper
  | native action =>
      rcases testing_native (nativeStep_taken json app next action step) run remaining position with
        ⟨rfl, _⟩ | ⟨testCase, current, _, world⟩ |
          ⟨before, testCase, outcome, current, _, world, rfl⟩
      · exact absurd rfl same
      · obtain ⟨owned, order, state⟩ := inBlock run _ current
        rw [world]
        refine ⟨owned, ?_, state⟩
        exact ((List.sublist_cons_self testCase remaining).append_left _).trans order
      · obtain ⟨rfl, order, state⟩ := inBlock before _ current
        rw [world]
        refine ⟨rfl, ?_, ?_⟩
        · rw [List.map_append, List.append_assoc]
          exact order
        · rw [List.map_append, BlockState.runItems, List.foldl_append]
          rw [BlockState.runItems] at state
          rw [← state]
          rfl

def QueuedFresh (app : App) : Prop :=
  ∀ run ∈ app.queue, run.results = (fun _ => none) ∧ run.executed = []

theorem queuedFresh_step (app next : App) (event : Event) (fresh : app.QueuedFresh)
    (taken : app.step json event = some next) : next.QueuedFresh := by
  cases event with
  | onTestStart owner =>
      cases taken
      exact queued_onTestStart owner ⟨rfl, rfl⟩ fresh
  | onTestStop owner =>
      cases taken
      refine queued_onTestStop owner (fun run kept => ?_) fresh
      rw [noteStop_results, noteStop_executed]
      exact kept
  | native action => exact queued_native (nativeStep_taken json app next action taken) fresh

/-- A block that was just taken from the queue has done nothing yet. -/
theorem inBlock_dequeued (filePath : TestRef → String) (files : Finset String)
    (earlier : List Event) (block : App)
    (dequeued : runEvents (step json) (start filePath files) (earlier ++ [.native .dequeue]) =
      some block) :
    ∃ owner, InBlock json owner block.world block := by
  rw [runEvents_append] at dequeued
  obtain ⟨idle, reached, last⟩ := Option.bind_eq_some_iff.mp dequeued
  obtain ⟨next, taken, done⟩ := Option.bind_eq_some_iff.mp last
  cases Option.some.inj done
  have fresh : idle.QueuedFresh := runEvents_invariant (step json) QueuedFresh (fun _ _ => True)
    (fun app event next holds _ => queuedFresh_step json app next event holds) earlier _ idle
    (fun run member => absurd member List.not_mem_nil)
    (along_of_forall (step json) (fun _ _ => trivial) earlier _) reached
  cases nativeStep_taken json idle block .dequeue taken with
  | dequeue run rest _ queued =>
      obtain ⟨noResults, noTests⟩ := fresh run (by rw [queued]; exact List.mem_cons_self ..)
      refine ⟨run.owner, fun current remaining position => ?_⟩
      cases position
      refine ⟨rfl, ?_, ?_⟩
      · rw [noTests]
        exact List.Sublist.refl _
      · rw [noTests, noResults]
        rfl

/-- The state in which the loop of a block enters a test, or ends. -/
def blockState (block : App) (owner : Nat) (tests : List (TestCase × NativeOutcome)) :
    BlockState :=
  BlockState.runItems json owner ⟨block.world, fun _ => none⟩ tests

/-- The record that a block hands over, seen as the loop over its tests. -/
theorem launch_replayed (owner : Nat) (block scored : App) (later : List Event) (now : Int64)
    (launch : Launch) (inBlock : InBlock json owner block.world block)
    (oneBlock : ∀ event ∈ later, event ≠ .native .dequeue)
    (ended : runEvents (step json) block (later ++ [.native (.score now)]) = some scored)
    (launched : scored.launches.getLast? = some launch) :
    launch.run.owner = owner ∧
      (launch.run.executed.map TestRun.testCase).Sublist TestCase.entries ∧
      launch.record.results =
        (blockState json block owner (launch.run.executed.map TestRun.input)).results ∧
      launch.shown =
        (blockState json block owner (launch.run.executed.map TestRun.input)).shown owner := by
  rw [runEvents_append] at ended
  obtain ⟨tested, reached, last⟩ := Option.bind_eq_some_iff.mp ended
  obtain ⟨next, taken, done⟩ := Option.bind_eq_some_iff.mp last
  cases Option.some.inj done
  have still : InBlock json owner block.world tested :=
    runEvents_invariant (step json) (InBlock json owner block.world)
      (fun _ event => event ≠ .native .dequeue)
      (fun app event next holds same => inBlock_step json owner block.world app next event holds
        same) later block tested inBlock (along_of_forall_mem (step json) later block oneBlock)
      reached
  cases nativeStep_taken json tested scored (.score now) taken with
  | score run now position =>
      obtain ⟨rfl, order, state⟩ := still run [] position
      simp only [finishTests, List.getLast?_append_cons, List.getLast?_singleton,
        Option.some.injEq] at launched
      subst launched
      rw [List.append_nil] at order
      refine ⟨rfl, order, congrArg BlockState.results state, ?_⟩
      exact congrArg (BlockState.shown run.owner) state

/-- In every block of every run, at whatever position: a test whose call
returned a code other than zero goes unreported, and the others are as without
it, when the call was silent, the item showed nothing that counts and its
listener was not registered; and it never goes unreported when the call sent a
message or the item showed something that counts. -/
theorem failed_test_not_reported (filePath : TestRef → String) (files : Finset String)
    (earlier later : List Event) (now : Int64) (block scored : App) (launch : Launch)
    (before after : List (TestCase × NativeOutcome)) (testCase : TestCase)
    (outcome : NativeOutcome)
    (dequeued : runEvents (step json) (start filePath files) (earlier ++ [.native .dequeue]) =
      some block)
    (oneBlock : ∀ event ∈ later, event ≠ .native .dequeue)
    (ended : runEvents (step json) block (later ++ [.native (.score now)]) = some scored)
    (launched : scored.launches.getLast? = some launch)
    (executed : launch.run.executed.map TestRun.input = before ++ (testCase, outcome) :: after)
    (failed : (blockState json block launch.run.owner before).world.Failed json
      ⟨launch.run.owner, testCase⟩ outcome) :
    (outcome.messages = [] ∧
        contribution ((blockState json block launch.run.owner before).shown launch.run.owner)
          testCase = 0 ∧
        (⟨launch.run.owner, testCase⟩ : TestRef) ∉
          (blockState json block launch.run.owner before).world.listeners →
      NotReported launch.run.owner testCase launch.record.results launch.shown
        (blockState json block launch.run.owner (before ++ after))) ∧
    (NotReported launch.run.owner testCase launch.record.results launch.shown
        (blockState json block launch.run.owner (before ++ after)) →
      outcome.messages = [] ∧
        contribution ((blockState json block launch.run.owner before).shown launch.run.owner)
          testCase = 0) := by
  obtain ⟨owner, inBlock⟩ := inBlock_dequeued json filePath files earlier block dequeued
  obtain ⟨rfl, order, results, shown⟩ := launch_replayed json owner block scored later now launch
    inBlock oneBlock ended launched
  have cases : launch.run.executed.map TestRun.testCase =
      before.map Prod.fst ++ testCase :: after.map Prod.fst := by
    have inputs := congrArg (List.map Prod.fst) executed
    rw [List.map_map, List.map_append, List.map_cons] at inputs
    exact inputs
  have distinct := order.nodup TestCase.entries_nodup
  rw [cases, List.nodup_append, List.nodup_cons] at distinct
  have notBefore : testCase ∉ before.map Prod.fst :=
    fun member => distinct.2.2 testCase member testCase (List.mem_cons_self ..) rfl
  have notAfter : testCase ∉ after.map Prod.fst := distinct.2.1.1
  rw [shown, results, executed]
  constructor
  · rintro ⟨silent, nothing, unheard⟩
    exact BlockState.notReported_of_silent json _ _ before after testCase outcome rfl notBefore
      notAfter failed silent nothing unheard
  · intro unreported
    exact (BlockState.failed_unreported_iff json _ _ before after testCase outcome rfl notBefore
      notAfter failed).mp ⟨unreported.entry, unreported.nothing⟩

/-! ## One job fails -/

def failedSilent : NativeOutcome := ⟨[], .returned 1, id⟩

def failedReport : NativeOutcome := ⟨[⟨sampleReport, .stored⟩], .returned 1, id⟩

/-- The sample app after a start, when the native thread has taken the block. -/
def sampleBlock : App :=
  { sampleStart.onTestStart 0 with
    queue := []
    current := some ({ owner := 0 }, .testing TestCase.entries) }

theorem sampleBlock_dequeued :
    runEvents (step sampleJson) sampleStart ([.onTestStart 0] ++ [.native .dequeue]) =
      some sampleBlock := rfl

/-- Once a stop was requested, the remaining iterations do nothing. -/
theorem skips_run (outcome : NativeOutcome) (app : App) (run : Run) (remaining : List TestCase)
    (position : app.current = some (run, .testing remaining))
    (stopped : (app.viewModels run.owner).forceStop = true) :
    runEvents (step json) app (List.replicate remaining.length (.native (.test outcome))) =
      some { app with current := some (run, .testing []) } := by
  induction remaining generalizing app with
  | nil =>
      rw [← position]
      rfl
  | cons testCase rest ih =>
      have skipped : app.step json (.native (.test outcome)) =
          some { app with current := some (run, .testing rest) } := by
        simp [step, nativeStep, position, forEachBody, stopped]
      rw [List.length_cons, List.replicate_succ, runEvents, skipped]
      exact ih { app with current := some (run, .testing rest) } rfl stopped

/-- Three tests of a block, then a stop request and the skipped rest. -/
def stoppedTests (first second third : NativeOutcome) : List Event :=
  [.native (.test first), .native (.test second), .native (.test third), .onTestStop 0] ++
    List.replicate (TestCase.entries.drop 3).length (.native (.test silentOutcome))

theorem stoppedTests_oneBlock (first second third : NativeOutcome) :
    ∀ event ∈ stoppedTests first second third, event ≠ .native .dequeue := by
  simp [stoppedTests]

/-- Whatever the three calls do, a record is handed over with the tests run. -/
theorem stoppedTests_run (first second third : NativeOutcome) :
    ∃ scored launch,
      runEvents (step sampleJson) sampleBlock
        (stoppedTests first second third ++ [.native (.score 0)]) = some scored ∧
      scored.launches.getLast? = some launch ∧ launch.run.owner = 0 ∧
      launch.run.executed.map TestRun.input =
        [(.q8t8SeqRd, first), (.q8t8SeqWr, second), (.q1t1RandRd, third)] := by
  obtain ⟨asked, run, three, position, stopped, owner, executed⟩ :
      ∃ asked run, runEvents (step sampleJson) sampleBlock
          [.native (.test first), .native (.test second), .native (.test third),
            .onTestStop 0] = some asked ∧
        asked.current = some (run, .testing (TestCase.entries.drop 3)) ∧
        (asked.viewModels run.owner).forceStop = true ∧ run.owner = 0 ∧
        run.executed.map TestRun.input =
          [(.q8t8SeqRd, first), (.q8t8SeqWr, second), (.q1t1RandRd, third)] :=
    ⟨_, _, rfl, rfl, rfl, rfl, rfl⟩
  have skipped := skips_run sampleJson silentOutcome asked run _ position stopped
  have scored : runEvents (step sampleJson) sampleBlock
      (stoppedTests first second third ++ [.native (.score 0)]) =
        some ({ asked with current := some (run, .testing []) }.finishTests run 0) := by
    rw [runEvents_append, stoppedTests, runEvents_append, three, Option.bind_some, skipped]
    rfl
  exact ⟨_, _, scored, List.getLast?_concat, owner, executed⟩

/-- A failed call without messages, in front of a test with a report. -/
theorem failedSilent_not_reported :
    ∃ scored launch,
      runEvents (step sampleJson) sampleBlock
        (stoppedTests failedSilent silentOutcome reportOutcome ++ [.native (.score 0)]) =
          some scored ∧
      scored.launches.getLast? = some launch ∧
      NotReported 0 .q8t8SeqRd launch.record.results launch.shown
        (blockState sampleJson sampleBlock 0
          [(.q8t8SeqWr, silentOutcome), (.q1t1RandRd, reportOutcome)]) := by
  obtain ⟨scored, launch, ended, launched, owner, executed⟩ :=
    stoppedTests_run failedSilent silentOutcome reportOutcome
  have failed : (blockState sampleJson sampleBlock launch.run.owner []).world.Failed sampleJson
      ⟨launch.run.owner, .q8t8SeqRd⟩ failedSilent := ⟨1, rfl, by decide⟩
  have settled := failed_test_not_reported sampleJson _ _ [.onTestStart 0] _ 0 sampleBlock scored
    launch [] [(.q8t8SeqWr, silentOutcome), (.q1t1RandRd, reportOutcome)] .q8t8SeqRd failedSilent
    sampleBlock_dequeued (stoppedTests_oneBlock _ _ _) ended launched executed failed
  rw [owner] at settled
  exact ⟨scored, launch, ended, launched, settled.1 ⟨rfl, by decide +kernel, List.not_mem_nil⟩⟩

/-- One of the jobs failed and fio printed its report all the same: the record
has the entry and the score counts it. -/
theorem failed_report_recorded :
    ∃ scored launch,
      runEvents (step sampleJson) sampleBlock
        (stoppedTests silentOutcome silentOutcome failedReport ++ [.native (.score 0)]) =
          some scored ∧
      scored.launches.getLast? = some launch ∧
      (blockState sampleJson sampleBlock 0
        [(.q8t8SeqRd, silentOutcome), (.q8t8SeqWr, silentOutcome)]).world.Failed sampleJson
          ⟨0, .q1t1RandRd⟩ failedReport ∧
      launch.record.results .q1t1RandRd = some sampleReport ∧
      launch.record.score = 1000 ∧
      ¬NotReported 0 .q1t1RandRd launch.record.results launch.shown
        (blockState sampleJson sampleBlock 0
          [(.q8t8SeqRd, silentOutcome), (.q8t8SeqWr, silentOutcome)]) := by
  obtain ⟨scored, launch, ended, launched, owner, executed⟩ :=
    stoppedTests_run silentOutcome silentOutcome failedReport
  have evaluated : (runEvents (step sampleJson) sampleBlock
      (stoppedTests silentOutcome silentOutcome failedReport ++ [.native (.score 0)])).map
        (fun app => app.launches.getLast?.map fun launch =>
          (launch.record.results .q1t1RandRd, launch.record.score)) =
      some (some (some sampleReport, 1000)) := by
    decide +kernel
  rw [ended, Option.map_some, launched] at evaluated
  simp only [Option.map_some, Option.some.injEq, Prod.mk.injEq] at evaluated
  obtain ⟨entry, score⟩ := evaluated
  refine ⟨scored, launch, ended, launched, ⟨1, by decide +kernel, by decide⟩, entry, score,
    fun unreported => ?_⟩
  rw [unreported.entry] at entry
  cases entry

end App

end RaptorMark
