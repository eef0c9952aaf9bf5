import RaptorMark.ViewModels.ListenerIsolation
import RaptorMark.ViewModels.SettingDialogs

/-!
# The directory a test writes to

The settings screen and one benchmark view model share the preferences.  A test
item chooses its file when it is created, that is with its view model; all other
settings are read when the command of a test is built.  The session below
interleaves the dialogs with the benchmark and keeps every command that was
started.
-/

set_option autoImplicit false

namespace RaptorMark

open Lib Lib.Kotlin Lib.Transition Constants BenchmarkTest

/-- History of one started test: its command and the target directory of the
settings at that moment. -/
structure StartedTest where
  command : Except JavaException (List JobOption)
  testDirPath : String

/-- The settings screen, the benchmark and the tests that were started. -/
structure Session where
  settings : SettingScreen
  app : App
  started : List StartedTest

/-- The view model of the session. -/
def sessionOwner : Nat := 0

inductive SessionEvent where
  | dialog (event : DialogEvent)
  | onTestStart
  | onTestStop
  | native (action : NativeStep)

namespace Session

/-- `BenchmarkViewModel(settingSharedPrefs, testRecordRepo)`: `updateTestItems(false)`
creates every test item, and with it the path of its file. -/
def create (settings : SettingScreen) (suffix : TestCase → RandomSuffix) (files : Finset String) :
    Session where
  settings
  app := App.start (fun ref => getRandomFilePath settings.prefs ref.testCase (suffix ref.testCase))
    files
  started := []

variable (uri : JavaNetUri) (device : Device) (json : OrgJson)

/-- `testOptionsBuilder` inside `runTest`. -/
def commandOf (session : Session) (ref : TestRef) : StartedTest where
  command := testOptionsBuilder uri session.settings.prefs ref.testCase
    (session.app.world.tests ref).filePath
  testDirPath := session.settings.prefs.getTestDirPath

/-- The test that a step of the native thread starts. -/
def startedBy (session : Session) : NativeStep → Option TestRef
  | .test _ => session.app.nextTest
  | _ => none

def step (session : Session) : SessionEvent → Option Session
  | .dialog event => do
      let settings ← session.settings.dialogStep uri device event
      return { session with settings }
  | .onTestStart => some { session with app := session.app.onTestStart sessionOwner }
  | .onTestStop => some { session with app := session.app.onTestStop sessionOwner }
  | .native action => do
      let app ← session.app.nativeStep json action
      let commands := (session.startedBy action).toList.map (session.commandOf uri)
      return { session with app, started := session.started ++ commands }

/-- `path` is a file directly in a directory.  Two texts name the same directory
if they have the same canonical path. -/
def LiesDirectlyIn (canonicalPath : String → String) (directory path : String) : Prop :=
  ∃ parent name, path = parent ++ "/" ++ name ∧ '/' ∉ name.toList ∧
    canonicalPath parent = canonicalPath directory

variable (canonicalPath : String → String)

/-- The command of a started test names one file, in the target directory. -/
def InTargetDirectory (test : StartedTest) : Prop :=
  ∃ options path, test.command = .ok options ∧ optionValues filePathOptName options = [path] ∧
    LiesDirectlyIn canonicalPath test.testDirPath path

def AllInTargetDirectory (session : Session) : Prop :=
  ∀ test ∈ session.started, InTargetDirectory canonicalPath test

/-- When a test is started the settings still name the directory of the moment
the view model was created. -/
def DirectoryUnchanged (created : SettingScreen) (session : Session) : SessionEvent → Prop
  | .native action => (session.startedBy action).isSome →
      canonicalPath created.prefs.getTestDirPath =
        canonicalPath session.settings.prefs.getTestDirPath
  | _ => True

theorem parent_unique (parent other name otherName : List Char) (plain : '/' ∉ name)
    (otherPlain : '/' ∉ otherName) (same : parent ++ '/' :: name = other ++ '/' :: otherName) :
    parent = other := by
  rcases List.append_eq_append_iff.mp same with ⟨middle, longer, rest⟩ | ⟨middle, longer, rest⟩
  · cases middle with
    | nil => rw [longer, List.append_nil]
    | cons first later =>
        obtain ⟨_, inner⟩ := List.cons.inj rest
        exact absurd (by rw [inner]; simp) plain
  · cases middle with
    | nil => rw [longer, List.append_nil]
    | cons first later =>
        obtain ⟨_, inner⟩ := List.cons.inj rest
        exact absurd (by rw [inner]; simp) otherPlain

theorem filePath_name_plain (testCase : TestCase) (suffix : RandomSuffix) :
    '/' ∉ testCase.name.toList ++ suffix.chars := by
  rw [List.mem_append, not_or]
  constructor
  · cases testCase <;> decide
  · intro member
    exact absurd (suffix.alphanumeric '/' member) (by decide)

/-- The path of a test lies in the directory that was set when it was created,
and in no other. -/
theorem getRandomFilePath_liesDirectlyIn (prefs : SettingSharedPrefs) (testCase : TestCase)
    (suffix : RandomSuffix) (directory : String) :
    LiesDirectlyIn canonicalPath directory (getRandomFilePath prefs testCase suffix) ↔
      canonicalPath prefs.getTestDirPath = canonicalPath directory := by
  constructor
  · rintro ⟨parent, name, path, plain, same⟩
    have texts : prefs.getTestDirPath.toList ++ '/' :: (testCase.name.toList ++ suffix.chars) =
        parent.toList ++ '/' :: name.toList := by
      simpa [getRandomFilePath] using congrArg String.toList path
    have parents : prefs.getTestDirPath = parent :=
      String.toList_injective
        (parent_unique _ _ _ _ (filePath_name_plain testCase suffix) plain texts)
    rw [parents]
    exact same
  · intro same
    refine ⟨prefs.getTestDirPath, testCase.name ++ String.ofList suffix.chars, ?_, ?_, same⟩
    · simp [getRandomFilePath, String.append_assoc]
    · simpa using filePath_name_plain testCase suffix

/-- The test items keep the paths they were created with. -/
def PathsOf (created : SettingScreen) (suffix : TestCase → RandomSuffix) (session : Session) :
    Prop :=
  ∀ ref, (session.app.world.tests ref).filePath =
    getRandomFilePath created.prefs ref.testCase (suffix ref.testCase)

theorem nativeStep_filePath (app next : App) (action : NativeStep) (ref : TestRef)
    (taken : app.nativeStep json action = some next) :
    (next.world.tests ref).filePath = (app.world.tests ref).filePath := by
  cases App.nativeStep_taken json app next action taken with
  | dequeue => rfl
  | skip => rfl
  | test run testCase remaining outcome =>
      exact World.runTest_filePath json app.world ⟨run.owner, testCase⟩ ref outcome
  | score => rfl
  | resetForceStop => rfl
  | resetRunning => rfl

theorem pathsOf_step (created : SettingScreen) (suffix : TestCase → RandomSuffix)
    (session next : Session) (event : SessionEvent) (paths : PathsOf created suffix session)
    (taken : session.step uri device json event = some next) : PathsOf created suffix next := by
  cases event with
  | dialog event =>
      obtain ⟨settings, _, rest⟩ := Option.bind_eq_some_iff.mp taken
      cases rest
      exact paths
  | onTestStart =>
      cases taken
      exact paths
  | onTestStop =>
      cases taken
      exact paths
  | native action =>
      obtain ⟨app, moved, rest⟩ := Option.bind_eq_some_iff.mp taken
      cases rest
      intro ref
      rw [nativeStep_filePath json session.app app action ref moved]
      exact paths ref

theorem commandOf_inTargetDirectory_iff (created : SettingScreen)
    (suffix : TestCase → RandomSuffix) (session : Session) (ref : TestRef)
    (paths : PathsOf created suffix session) :
    InTargetDirectory canonicalPath (session.commandOf uri ref) ↔
      canonicalPath created.prefs.getTestDirPath =
        canonicalPath session.settings.prefs.getTestDirPath := by
  obtain ⟨options, built, filename⟩ := testOptionsBuilder_filename uri session.settings.prefs
    ref.testCase (session.app.world.tests ref).filePath
  have lies := getRandomFilePath_liesDirectlyIn canonicalPath created.prefs ref.testCase
    (suffix ref.testCase) session.settings.prefs.getTestDirPath
  rw [← paths ref] at lies
  rw [← lies]
  constructor
  · rintro ⟨otherOptions, path, command, named, inDirectory⟩
    obtain rfl : options = otherOptions := Except.ok.inj (built.symm.trans command)
    obtain ⟨rfl, _⟩ := List.cons.inj (filename.symm.trans named)
    exact inDirectory
  · intro inDirectory
    exact ⟨options, _, built, filename, inDirectory⟩

theorem allInTargetDirectory_step (created : SettingScreen) (suffix : TestCase → RandomSuffix)
    (session next : Session) (event : SessionEvent) (paths : PathsOf created suffix session)
    (good : AllInTargetDirectory canonicalPath session)
    (taken : session.step uri device json event = some next) :
    DirectoryUnchanged canonicalPath created session event ↔
      AllInTargetDirectory canonicalPath next := by
  cases event with
  | dialog event =>
      obtain ⟨settings, _, rest⟩ := Option.bind_eq_some_iff.mp taken
      cases rest
      exact ⟨fun _ => good, fun _ => trivial⟩
  | onTestStart =>
      cases taken
      exact ⟨fun _ => good, fun _ => trivial⟩
  | onTestStop =>
      cases taken
      exact ⟨fun _ => good, fun _ => trivial⟩
  | native action =>
      obtain ⟨app, moved, rest⟩ := Option.bind_eq_some_iff.mp taken
      cases rest
      simp only [DirectoryUnchanged, AllInTargetDirectory, List.forall_mem_append]
      cases session.startedBy action with
      | none => exact ⟨fun _ => ⟨good, fun _ => (nomatch ·)⟩, fun _ => (nomatch ·)⟩
      | some ref =>
          have decides := commandOf_inTargetDirectory_iff uri canonicalPath created suffix session
            ref paths
          simp only [Option.isSome_some, forall_const, Option.toList_some, List.map_cons,
            List.map_nil, List.forall_mem_singleton, decides]
          exact ⟨fun same => ⟨good, same⟩, fun both => both.2⟩

/-- Every test of a session writes directly into the directory that is set when
it is started exactly if, at each of these moments, that directory is the one
that was set when the view model was created. -/
theorem inTargetDirectory_throughout_iff (created : SettingScreen)
    (suffix : TestCase → RandomSuffix) (files : Finset String) (events : List SessionEvent) :
    Throughout (step uri device json) (AllInTargetDirectory canonicalPath)
        (create created suffix files) events ↔
      Along (step uri device json) (DirectoryUnchanged canonicalPath created)
        (create created suffix files) events := by
  apply throughout_iff_along (step uri device json) (PathsOf created suffix)
  · intro session event next paths taken
    exact pathsOf_step uri device json created suffix session next event paths taken
  · intro session event next paths good taken
    exact allInTargetDirectory_step uri device json canonicalPath created suffix session next
      event paths good taken
  · exact fun ref => rfl
  · exact fun test => (nomatch ·)

/-! ## A directory chosen after the view model was created -/

/-- The target path is set to `/sdcard`, then a run is started. -/
def retargetedRun : List SessionEvent :=
  [.dialog (.openDialog .targetPath),
    .dialog (.apply (.targetPath true "/sdcard") SettingScreen.sampleFileSystem),
    .onTestStart, .native .dequeue, .native (.test App.silentOutcome)]

/-- The test is started while `/sdcard` is set and writes to the old directory. -/
theorem retargeted_run_ignores_setting :
    ∃ first, SettingScreen.start plainUri sampleFilesDir = .ok first ∧
      (∃ final test, runEvents (step plainUri SettingScreen.sampleDevice App.sampleJson)
          (create first (fun _ => sampleSuffix) ∅) retargetedRun = some final ∧
        final.started = [test] ∧ test.testDirPath = "/sdcard" ∧
        test.command.map (optionValues filePathOptName) =
          .ok ["/data/user/0/io.github.devriesl.raptormark/files/Q8T8_SEQ_RDabcdefgh"]) ∧
      ¬Throughout (step plainUri SettingScreen.sampleDevice App.sampleJson)
        (AllInTargetDirectory id) (create first (fun _ => sampleSuffix) ∅) retargetedRun := by
  have evaluated : ((SettingScreen.start plainUri sampleFilesDir).toOption.bind fun first =>
      runEvents (step plainUri SettingScreen.sampleDevice App.sampleJson)
        (create first (fun _ => sampleSuffix) ∅) retargetedRun).map (fun final =>
          final.started.map fun test => (test.testDirPath,
            (test.command.map (optionValues filePathOptName)).toOption)) =
      some [("/sdcard",
        some ["/data/user/0/io.github.devriesl.raptormark/files/Q8T8_SEQ_RDabcdefgh"])] := by
    decide +kernel
  obtain ⟨first, started, _⟩ := SettingScreen.start_usable plainUri sampleFilesDir
  rw [started] at evaluated
  obtain ⟨final, run, tests⟩ := Option.map_eq_some_iff.mp evaluated
  obtain ⟨⟨command, testDirPath⟩, isOnly, facts⟩ := List.map_eq_singleton_iff.mp tests
  obtain ⟨rfl, built⟩ := Prod.mk.inj facts
  have named : command.map (optionValues filePathOptName) =
      .ok ["/data/user/0/io.github.devriesl.raptormark/files/Q8T8_SEQ_RDabcdefgh"] := by
    cases command with
    | error exception => cases built
    | ok options => exact congrArg Except.ok (Option.some.inj built)
  refine ⟨first, started, ⟨final, _, run, isOnly, rfl, named⟩, fun throughout => ?_⟩
  have good := good_of_throughout _ _ retargetedRun _ final throughout run
  obtain ⟨options, path, rfl, filename, parent, name, isPath, _, same⟩ :=
    good _ (by rw [isOnly]; exact List.mem_singleton.mpr rfl)
  have onlyPath := filename.symm.trans (Except.ok.inj named)
  obtain rfl : parent = "/sdcard" := same
  have inside : "/sdcard/".toList <+:
      "/data/user/0/io.github.devriesl.raptormark/files/Q8T8_SEQ_RDabcdefgh".toList := by
    rw [← (List.cons.inj onlyPath).1, isPath, String.toList_append]
    exact List.prefix_append _ _
  exact absurd inside (by decide +kernel)

end Session

end RaptorMark
