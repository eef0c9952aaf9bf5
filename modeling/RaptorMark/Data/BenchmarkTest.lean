import Mathlib.Data.Finset.Basic
import Mathlib.Logic.Function.Basic
import RaptorMark.Data.TestCase
import RaptorMark.Data.TestResult
import RaptorMark.Lib.HashSet

/-!
# Benchmark tests and the native handler

`NativeHandler`'s listener set and `updateStatus`, and `BenchmarkTest`'s
listener and `runTest`.  A `BenchmarkTest` object is named by the view model
that created it and by its test case, so that the listeners of a view model
that is long gone can still be in the process-wide set.

The native call is an input: the messages it passes to `updateStatus`, the way
it ends and what it leaves on disk.  An exception thrown by a listener ends the
call and surfaces from it; the messages after it are not delivered.
-/

set_option autoImplicit false

namespace RaptorMark

open Lib Lib.Kotlin

structure TestRef where
  owner : Nat
  testCase : TestCase
  deriving DecidableEq, Repr

/-- The fields of a `BenchmarkTest`. -/
structure BenchmarkTest where
  filePath : String
  testResult : Option TestResult := none
  nativeResult : Option String := none

/-- What the native thread works on: the test objects, the registered
listeners and the files that exist. -/
structure World where
  tests : TestRef → BenchmarkTest
  listeners : HashSet TestRef
  files : Finset String

/-- One call of `updateStatus`, with the order in which it meets the listeners. -/
structure Callback where
  message : String
  order : IterationOrder TestRef

inductive NativeEnd where
  | returned (code : Int32)
  | threw
  deriving DecidableEq, Repr

structure NativeOutcome where
  callbacks : List Callback
  ending : NativeEnd
  files : Finset String → Finset String

def NativeOutcome.messages (outcome : NativeOutcome) : List String :=
  outcome.callbacks.map Callback.message

/-- `System.lineSeparator()` on Android. -/
def lineSeparator : String := "\n"

namespace World

def setTest (world : World) (ref : TestRef) (test : BenchmarkTest) : World :=
  { world with tests := Function.update world.tests ref test }

@[simp] theorem setTest_tests_same (world : World) (ref : TestRef) (test : BenchmarkTest) :
    (world.setTest ref test).tests ref = test := by
  simp [setTest]

@[simp] theorem setTest_tests_other (world : World) (ref other : TestRef) (test : BenchmarkTest)
    (different : other ≠ ref) : (world.setTest ref test).tests other = world.tests other := by
  simp [setTest, different]

def registerListener (world : World) (ref : TestRef) : World :=
  { world with listeners := world.listeners.add ref }

def unregisterListener (world : World) (ref : TestRef) : World :=
  { world with listeners := world.listeners.remove ref }

/-- `if (testFile.exists()) testFile.delete()`. -/
def deleteTestFile (world : World) (ref : TestRef) : World :=
  { world with files := world.files.erase (world.tests ref).filePath }

/-- `listOfNotNull(nativeResult, result).joinToString(System.lineSeparator())`. -/
def joinResult (nativeResult : Option String) (result : String) : String :=
  lineSeparator.intercalate (nativeResult.toList ++ [result])

/-- `nativeListener.onTestResult`.  The text is stored before it is parsed. -/
def onTestResult (json : OrgJson) (world : World) (ref : TestRef) (result : String) :
    World × Except JavaException Unit :=
  let test := world.tests ref
  let text := joinResult test.nativeResult result
  let stored := { test with nativeResult := some text }
  match parseResult json text with
  | .ok parsed => (world.setTest ref { stored with testResult := parsed }, .ok ())
  | .error exception => (world.setTest ref stored, .error exception)

/-- The `forEach` of `updateStatus`: a listener that throws ends it. -/
def notifyListeners (json : OrgJson) (message : String) :
    World → List TestRef → World × Except JavaException Unit
  | world, [] => (world, .ok ())
  | world, ref :: rest =>
      match world.onTestResult json ref message with
      | (next, .ok ()) => notifyListeners json message next rest
      | (next, .error exception) => (next, .error exception)

def updateStatus (json : OrgJson) (world : World) (callback : Callback) :
    World × Except JavaException Unit :=
  notifyListeners json callback.message world (world.listeners.iterate callback.order)

def deliver (json : OrgJson) : World → List Callback → World × Except JavaException Unit
  | world, [] => (world, .ok ())
  | world, callback :: rest =>
      match world.updateStatus json callback with
      | (next, .ok ()) => deliver json next rest
      | (next, .error exception) => (next, .error exception)

/-- `native_FIOTest`: the callbacks, then the end of the call. -/
def nativeTest (json : OrgJson) (world : World) (outcome : NativeOutcome) :
    World × Except JavaException Int32 :=
  let (called, result) := world.deliver json outcome.callbacks
  let left := { called with files := outcome.files called.files }
  match result, outcome.ending with
  | .error exception, _ => (left, .error exception)
  | .ok (), .threw => (left, .error .nativeException)
  | .ok (), .returned code => (left, .ok code)

/-- `runTest` up to the point where `native_FIOTest` is entered. -/
def enterNative (world : World) (ref : TestRef) : World :=
  (world.setTest ref { world.tests ref with nativeResult := none }).registerListener ref

/-- `runTest`.  Nothing undoes the registration when the native call throws. -/
def runTest (json : OrgJson) (world : World) (ref : TestRef) (outcome : NativeOutcome) :
    World × Except JavaException (Option String) :=
  match (world.enterNative ref).nativeTest json outcome with
  | (called, .error exception) => (called, .error exception)
  | (called, .ok _) =>
      let finished := (called.unregisterListener ref).deleteTestFile ref
      (finished, .ok (finished.tests ref).nativeResult)

end World

end RaptorMark
